/-!
# Tables

A `Table` maps names to values and remembers the order in which names were first inserted. Inserting a
known name replaces its value in place.

The view of a table is `get?`; `get?_insert` and `get?_erase` say what each operation does to it, and
`keys_insert` where a name is put.
-/

namespace CurryLisp

/-- A finite map from names, in order of first insertion. -/
structure Table (α : Type) where
  entries : List (String × α) := []

namespace Table

variable {α : Type}

/-- The entries after `value` was put under `name`. -/
def insertEntry (name : String) (value : α) : List (String × α) → List (String × α)
  | [] => [(name, value)]
  | entry :: rest =>
    if entry.1 = name then (name, value) :: rest else entry :: insertEntry name value rest

/-- Puts `value` under `name`. -/
def insert (t : Table α) (name : String) (value : α) : Table α :=
  ⟨insertEntry name value t.entries⟩

/-- Removes `name`. -/
def erase (t : Table α) (name : String) : Table α :=
  ⟨t.entries.filter fun entry => entry.1 != name⟩

/-- The value under `name`. -/
def get? (t : Table α) (name : String) : Option α := t.entries.lookup name

/-- Whether there is a value under `name`. -/
def contains (t : Table α) (name : String) : Bool := (t.get? name).isSome

/-- Number of names. -/
def size (t : Table α) : Nat := t.entries.length

/-- The names, in order of first insertion. -/
def keys (t : Table α) : List String := t.entries.map (·.1)

/-- The values, in the order of their names. -/
def values (t : Table α) : List α := t.entries.map (·.2)

/-- The entries in the order of their names' code points. -/
def sorted (t : Table α) : List (String × α) :=
  t.entries.mergeSort fun a b => a.1 ≤ b.1

/-- Puts each of `entries` into the table, in turn. -/
def insertAll (t : Table α) (entries : List (String × α)) : Table α :=
  entries.foldl (fun t entry => t.insert entry.1 entry.2) t

/-! ## The view -/

theorem get?_empty (name : String) : ({} : Table α).get? name = none := rfl

theorem lookup_cons (name key : String) (value : α) (rest : List (String × α)) :
    ((key, value) :: rest).lookup name = if name = key then some value else rest.lookup name := by
  by_cases h : name = key
  · subst h; simp
  · have hb : (name == key) = false := by simpa using h
    rw [List.lookup_cons, hb, if_neg h]

theorem lookup_insertEntry (name other : String) (value : α) (entries : List (String × α)) :
    (insertEntry name value entries).lookup other =
      if other = name then some value else entries.lookup other := by
  induction entries with
  | nil => exact lookup_cons other name value []
  | cons entry rest ih =>
    obtain ⟨key, old⟩ := entry
    by_cases hk : key = name
    · subst hk
      by_cases h : other = key <;> simp [insertEntry, lookup_cons, h]
    · by_cases h : other = key
      · subst h; simp [insertEntry, hk]
      · simp [insertEntry, lookup_cons, hk, h, ih]

/-- Inserting changes what is under the name, and nothing else. -/
theorem get?_insert (t : Table α) (name other : String) (value : α) :
    (t.insert name value).get? other = if other = name then some value else t.get? other :=
  lookup_insertEntry name other value t.entries

@[simp]
theorem get?_insert_self (t : Table α) (name : String) (value : α) :
    (t.insert name value).get? name = some value := by
  simp [get?_insert]

theorem get?_insert_of_ne (t : Table α) {name other : String} (value : α) (h : other ≠ name) :
    (t.insert name value).get? other = t.get? other := by
  simp [get?_insert, h]

/-- Putting entries of other names leaves what is under the name. -/
theorem get?_insertAll_of_ne (t : Table α) {name : String} {entries : List (String × α)}
    (h : ∀ entry ∈ entries, entry.1 ≠ name) : (t.insertAll entries).get? name = t.get? name := by
  induction entries generalizing t with
  | nil => rfl
  | cons entry rest ih =>
    have hrest := ih (t.insert entry.1 entry.2) fun e he => h e (List.mem_cons_of_mem _ he)
    have hne : name ≠ entry.1 := Ne.symm (h entry (by simp))
    exact hrest.trans (get?_insert_of_ne t entry.2 hne)

/-- Putting an entry of a name decides what is under the name. -/
theorem get?_insertAll_of_key {name : String} {entries : List (String × α)}
    (h : name ∈ entries.map (·.1)) :
    ∃ value, ∀ t : Table α, (t.insertAll entries).get? name = some value := by
  induction entries with
  | nil => cases h
  | cons entry rest ih =>
    by_cases hrest : name ∈ rest.map (·.1)
    · obtain ⟨value, hvalue⟩ := ih hrest
      exact ⟨value, fun t => hvalue (t.insert entry.1 entry.2)⟩
    · obtain rfl : name = entry.1 := (List.mem_cons.1 h).resolve_right hrest
      have hothers : ∀ e ∈ rest, e.1 ≠ entry.1 := fun e he heq =>
        hrest (List.mem_map.2 ⟨e, he, heq⟩)
      exact ⟨entry.2, fun t =>
        (get?_insertAll_of_ne _ hothers).trans (get?_insert_self t entry.1 entry.2)⟩

/-- Of entries with names that differ from each other, each is under its name. -/
theorem get?_insertAll_of_mem (t : Table α) {name : String} {value : α}
    {entries : List (String × α)} (hdistinct : (entries.map (·.1)).Nodup)
    (h : (name, value) ∈ entries) : (t.insertAll entries).get? name = some value := by
  induction entries generalizing t with
  | nil => cases h
  | cons entry rest ih =>
    obtain ⟨hentry, hrest⟩ := List.nodup_cons.1 hdistinct
    rcases List.mem_cons.1 h with rfl | h
    · have hothers : ∀ e ∈ rest, e.1 ≠ name := fun e he heq =>
        hentry (List.mem_map.2 ⟨e, he, heq⟩)
      exact (get?_insertAll_of_ne _ hothers).trans (get?_insert_self t name value)
    · exact ih (t.insert entry.1 entry.2) hrest h

theorem insertAll_append (t : Table α) (entries entries' : List (String × α)) :
    t.insertAll (entries ++ entries') = (t.insertAll entries).insertAll entries' :=
  List.foldl_append

/-- What is put last under the name decides. -/
theorem get?_insertAll (t : Table α) (entries : List (String × α)) (name : String) :
    (t.insertAll entries).get? name =
      ((entries.reverse.find? (·.1 = name)).map (·.2)).or (t.get? name) := by
  induction entries generalizing t with
  | nil => rfl
  | cons entry rest ih =>
    have hrest := ih (t.insert entry.1 entry.2)
    change ((t.insert entry.1 entry.2).insertAll rest).get? name = _
    rw [hrest, get?_insert, List.reverse_cons, List.find?_append]
    cases rest.reverse.find? (·.1 = name) with
    | some found => rfl
    | none =>
      by_cases h : name = entry.1
      · simp [h]
      · simp [h, Ne.symm h]

/-- Erasing removes what is under the name, and nothing else. -/
theorem get?_erase (t : Table α) (name other : String) :
    (t.erase name).get? other = if other = name then none else t.get? other := by
  obtain ⟨entries⟩ := t
  simp only [get?, erase]
  induction entries with
  | nil => simp
  | cons entry rest ih =>
    obtain ⟨key, old⟩ := entry
    by_cases hk : key = name
    · subst hk
      by_cases h : other = key
      · simpa [lookup_cons, h] using ih
      · simpa [lookup_cons, h] using ih
    · by_cases h : other = key
      · subst h; simp [hk]
      · simpa [lookup_cons, hk, h] using ih

/-! ## The names -/

/-- A name that is inserted first goes behind the others. -/
theorem keys_insert (t : Table α) (name : String) (value : α) :
    (t.insert name value).keys = if name ∈ t.keys then t.keys else t.keys ++ [name] := by
  obtain ⟨entries⟩ := t
  simp only [keys, insert]
  induction entries with
  | nil => rfl
  | cons entry rest ih =>
    by_cases hk : entry.1 = name
    · simp [insertEntry, hk]
    · have hne : name ≠ entry.1 := Ne.symm hk
      simp only [insertEntry, if_neg hk, List.map_cons, ih, List.mem_cons, hne, false_or]
      exact apply_ite (entry.1 :: ·) _ _ _

/-- New names go behind the others, each once. -/
theorem keys_insertAll (t : Table α) (entries : List (String × α)) :
    (t.insertAll entries).keys =
      t.keys ++ ((entries.map (·.1)).removeAll t.keys).eraseDups := by
  induction entries generalizing t with
  | nil => simp [insertAll]
  | cons entry rest ih =>
    have hrest := ih (t.insert entry.1 entry.2)
    change ((t.insert entry.1 entry.2).insertAll rest).keys = _
    rw [hrest, keys_insert, List.map_cons]
    split
    · next hknown => simp [List.removeAll, hknown]
    · next hnew =>
      have hothers : (rest.map (·.1)).removeAll (t.keys ++ [entry.1]) =
          ((rest.map (·.1)).removeAll t.keys).filter fun key => !key == entry.1 := by
        rw [List.removeAll, List.removeAll, List.filter_filter]
        refine List.filter_congr fun key _ => ?_
        by_cases hkey : key = entry.1 <;> simp [hkey]
      have hfirst : (entry.1 :: rest.map (·.1)).removeAll t.keys =
          entry.1 :: (rest.map (·.1)).removeAll t.keys := by
        simp [List.removeAll, hnew]
      rw [hothers, hfirst, List.eraseDups_cons, List.append_assoc, List.singleton_append]

end Table

end CurryLisp
