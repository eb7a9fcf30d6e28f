/-!
# Directories

A directory maps names to values. Its entries are sorted by name, by code point, and
no name occurs twice.

* `get?_empty`, `get?_insert`: a look-up gives what was inserted last under the name.
* `mem_names_iff`: the names are those under which something is found.
-/
namespace BackendRouting

@[ext]
structure Directory (α : Type) where
  entries : List (String × α)
  sorted : entries.Pairwise fun a b => a.1 < b.1
  deriving DecidableEq

namespace Directory

variable {α : Type}

def empty : Directory α := ⟨[], .nil⟩

def names (d : Directory α) : List String :=
  d.entries.map Prod.fst

def get? (d : Directory α) (name : String) : Option α :=
  d.entries.lookup name

/-- Put a value at its place among sorted entries, over any value of that name. -/
def insertEntry (name : String) (value : α) : List (String × α) → List (String × α)
  | [] => [(name, value)]
  | entry :: entries =>
    if name < entry.1 then (name, value) :: entry :: entries
    else if name = entry.1 then (name, value) :: entries
    else entry :: insertEntry name value entries

theorem mem_insertEntry {name : String} {value : α} {entries : List (String × α)}
    {entry : String × α} (h : entry ∈ insertEntry name value entries) :
    entry = (name, value) ∨ entry ∈ entries := by
  induction entries with
  | nil => simpa [insertEntry] using h
  | cons head tail ih =>
    simp only [insertEntry] at h
    split at h
    · simpa using h
    · split at h
      · rcases List.mem_cons.1 h with h | h
        · exact .inl h
        · exact .inr (List.mem_cons_of_mem _ h)
      · rcases List.mem_cons.1 h with h | h
        · exact .inr (h ▸ List.mem_cons_self)
        · exact (ih h).imp_right (List.mem_cons_of_mem _)

theorem pairwise_insertEntry (name : String) (value : α) {entries : List (String × α)}
    (h : entries.Pairwise fun a b => a.1 < b.1) :
    (insertEntry name value entries).Pairwise fun a b => a.1 < b.1 := by
  induction entries with
  | nil => exact List.pairwise_singleton _ _
  | cons head tail ih =>
    obtain ⟨hhead, htail⟩ := List.pairwise_cons.1 h
    simp only [insertEntry]
    split
    · rename_i hlt
      refine List.pairwise_cons.2 ⟨fun entry hentry => ?_, h⟩
      rcases List.mem_cons.1 hentry with rfl | hentry
      · exact hlt
      · exact String.lt_trans hlt (hhead entry hentry)
    · rename_i hnlt
      split
      · rename_i heq
        exact List.pairwise_cons.2 ⟨fun entry hentry => heq ▸ hhead entry hentry, htail⟩
      · rename_i hne
        refine List.pairwise_cons.2 ⟨fun entry hentry => ?_, ih htail⟩
        rcases mem_insertEntry hentry with rfl | hentry
        · exact Std.lt_of_le_of_ne (String.not_lt.1 hnlt) (Ne.symm hne)
        · exact hhead entry hentry

def insert (d : Directory α) (name : String) (value : α) : Directory α :=
  ⟨insertEntry name value d.entries, pairwise_insertEntry name value d.sorted⟩

theorem lookup_entry (name : String) (entry : String × α) (entries : List (String × α)) :
    (entry :: entries).lookup name =
      if name = entry.1 then some entry.2 else entries.lookup name := by
  rw [List.lookup_cons]
  by_cases h : name = entry.1
  · simp [h]
  · simp [h, beq_eq_false_iff_ne.2 h]

theorem lookup_insertEntry (name other : String) (value : α) (entries : List (String × α)) :
    (insertEntry name value entries).lookup other =
      if other = name then some value else entries.lookup other := by
  induction entries with
  | nil => simp [insertEntry, lookup_entry]
  | cons head tail ih =>
    simp only [insertEntry]
    split
    · rw [lookup_entry]
    · split
      · rename_i heq
        rw [lookup_entry, lookup_entry, ← heq]
        by_cases h : other = name <;> simp [h]
      · rename_i hne
        rw [lookup_entry, lookup_entry, ih]
        by_cases h : other = head.1
        · simp [h, Ne.symm hne]
        · simp [h]

@[simp] theorem get?_empty (name : String) : (empty : Directory α).get? name = none := rfl

@[simp] theorem get?_insert (d : Directory α) (name other : String) (value : α) :
    (d.insert name value).get? other = if other = name then some value else d.get? other :=
  lookup_insertEntry name other value d.entries

theorem mem_map_fst_iff (entries : List (String × α)) (name : String) :
    name ∈ entries.map Prod.fst ↔ ∃ value, entries.lookup name = some value := by
  induction entries with
  | nil => simp
  | cons entry entries ih =>
    rw [lookup_entry, List.map_cons, List.mem_cons, ih]
    by_cases h : name = entry.1 <;> simp [h]

theorem mem_names_iff (d : Directory α) (name : String) :
    name ∈ d.names ↔ ∃ value, d.get? name = some value :=
  mem_map_fst_iff d.entries name

/-- Where no name occurs twice a look-up gives what stands with the name, wherever this is. -/
theorem lookup_eq_some_iff {entries : List (String × α)}
    (h : entries.Pairwise fun a b => a.1 ≠ b.1) {name : String} {value : α} :
    entries.lookup name = some value ↔ (name, value) ∈ entries := by
  rw [List.lookup_eq_some_iff]
  constructor
  · intro h
    obtain ⟨before, after, hcut, -⟩ := h
    rw [hcut]
    exact List.mem_append_right _ List.mem_cons_self
  · intro hmem
    obtain ⟨before, after, hcut⟩ := List.append_of_mem hmem
    refine ⟨before, after, hcut, fun entry hentry => ?_⟩
    have hne := (List.pairwise_append.1 (hcut ▸ h)).2.2 entry hentry _ List.mem_cons_self
    simpa using Ne.symm hne

theorem pairwise_ne (d : Directory α) : d.entries.Pairwise fun a b => a.1 ≠ b.1 := by
  refine d.sorted.imp ?_
  intro entry other hlt heq
  rw [heq] at hlt
  exact String.lt_irrefl _ hlt

theorem get?_eq_some_iff {d : Directory α} {name : String} {value : α} :
    d.get? name = some value ↔ (name, value) ∈ d.entries :=
  lookup_eq_some_iff d.pairwise_ne

theorem sorted_names (d : Directory α) : d.names.Pairwise (· < ·) :=
  List.pairwise_map.2 d.sorted

theorem nodup_names (d : Directory α) : d.names.Nodup :=
  List.pairwise_map.2 d.pairwise_ne

/-- Two directories that have the same names list them in the same order. -/
theorem names_eq_of_mem_iff {β : Type} {d : Directory α} {d' : Directory β}
    (h : ∀ name, name ∈ d.names ↔ name ∈ d'.names) : d.names = d'.names := by
  refine List.Perm.eq_of_pairwise (fun a b _ _ hab hba => ?_) d.sorted_names d'.sorted_names
    ((List.perm_ext_iff_of_nodup d.nodup_names d'.nodup_names).2 h)
  exact absurd (String.lt_trans hab hba) (String.lt_irrefl _)

/-- A directory is told by its look-ups. -/
theorem ext_get? {d d' : Directory α} (h : ∀ name, d.get? name = d'.get? name) : d = d' := by
  have hnodup (d : Directory α) : d.entries.Nodup :=
    d.pairwise_ne.imp fun hne heq => hne (congrArg Prod.fst heq)
  refine Directory.ext (List.Perm.eq_of_pairwise (fun a b _ _ hab hba => ?_) d.sorted d'.sorted
    ((List.perm_ext_iff_of_nodup (hnodup d) (hnodup d')).2 fun (name, value) => ?_))
  · exact absurd (String.lt_trans hab hba) (String.lt_irrefl _)
  · rw [← get?_eq_some_iff (d := d), h, get?_eq_some_iff]

/-- Insert one after the other; of two values for one name the later one stays. -/
def ofList (entries : List (String × α)) : Directory α :=
  entries.foldl (fun d (name, value) => d.insert name value) empty

theorem get?_foldl_insert (entries : List (String × α)) (d : Directory α) (name : String) :
    (entries.foldl (fun d (name, value) => d.insert name value) d).get? name =
      (entries.reverse.lookup name).or (d.get? name) := by
  induction entries generalizing d with
  | nil => rfl
  | cons entry entries ih =>
    rw [List.foldl_cons, ih, get?_insert, List.reverse_cons, List.lookup_append, lookup_entry,
      List.lookup_nil, Option.or_assoc]
    by_cases h : name = entry.1 <;> simp [h]

/-- A look-up gives the last value for the name. -/
theorem get?_ofList (entries : List (String × α)) (name : String) :
    (ofList entries).get? name = entries.reverse.lookup name := by
  rw [ofList, get?_foldl_insert, get?_empty, Option.or_none]

theorem ofList_entries (d : Directory α) : ofList d.entries = d := by
  have hne : d.entries.reverse.Pairwise fun a b => a.1 ≠ b.1 :=
    List.pairwise_reverse.2 (d.pairwise_ne.imp Ne.symm)
  refine ext_get? fun name => Option.ext fun value => ?_
  rw [get?_ofList, lookup_eq_some_iff hne, List.mem_reverse, get?_eq_some_iff]

theorem mem_of_mem_ofList {entries : List (String × α)} {entry : String × α}
    (h : entry ∈ (ofList entries).entries) : entry ∈ entries := by
  obtain ⟨name, value⟩ := entry
  rw [← get?_eq_some_iff, get?_ofList, List.lookup_eq_some_iff] at h
  obtain ⟨before, after, hcut, -⟩ := h
  exact List.mem_reverse.1 (hcut ▸ List.mem_append_right _ List.mem_cons_self)

end Directory
end BackendRouting
