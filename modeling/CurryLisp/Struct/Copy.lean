import CurryLisp.Store
import CurryLisp.Unseen

/-!
# Copies of structs

A copy of a struct has fields of its own, and a struct in a field is copied with it. Only a field that
leads back to a struct whose fields are being copied keeps that struct, so copying ends: the structs
on the way down are pairwise different.
-/

namespace CurryLisp.Struct

/-- Copies of the fields of a struct. Structs are looked up in `source`; copies are put behind those
in `made`. The structs on `path` are being copied further up. -/
def copyFields (source : Array Struct) (path : List Address) (made : Array Struct) :
    List (String × Field) → List (String × Field) × Array Struct
  | [] => ([], made)
  | (name, field) :: rest =>
    let (value, made) : Value × Array Struct :=
      match field.value with
      | .struct a =>
        if _hpath : a ∈ path then (field.value, made)
        else
          match _ha : source[a]? with
          | some inner =>
            let (fields, made) := copyFields source (a :: path) made inner.fields.entries
            (.struct made.size, made.push { inner with fields := ⟨fields⟩ })
          | none => (field.value, made)
      | value => (value, made)
    let (copied, made) := copyFields source path made rest
    ((name, { field with value }) :: copied, made)
termination_by entries => (unseen (List.range source.size) path, entries.length)
decreasing_by
  · apply Prod.Lex.left
    exact unseen_cons_lt (List.mem_range.2 (Array.getElem?_eq_some_iff.1 _ha).1) _hpath
  · apply Prod.Lex.right
    exact Nat.lt_succ_self _

end CurryLisp.Struct

namespace CurryLisp.Store

/-- The fields of a copy of `struct`, and the store with the copies of the structs in them. -/
def copyFields (s : Store) (struct : Struct) : Table Field × Store :=
  let (fields, structs) := Struct.copyFields s.structs [] s.structs struct.fields.entries
  (⟨fields⟩, { s with structs })

/-- The address of a copy of `struct`. -/
def copyStruct (s : Store) (struct : Struct) : Address × Store :=
  let (fields, s) := s.copyFields struct
  s.newStruct { struct with fields }

end CurryLisp.Store
