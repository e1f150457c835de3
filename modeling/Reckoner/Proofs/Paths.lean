import Reckoner.Aggregate.Group
import Reckoner.Proofs.Results
import Reckoner.Proofs.UnitTexts

namespace Reckoner.Proofs.Paths
open Aggregate Text

variable {v : Value}

theorem member_absent (h : isAbsent v = true) (key : List Char) : member v key = .ok .missing := by
  cases v <;> first | rfl | cases h

/-- Whatever is asked of `none`, or of what is missing, is missing. -/
theorem lookup_absent (h : isAbsent v = true) (path : List (List Char)) :
    lookup v path = .ok (if path = [] then v else .missing) := by
  cases path with
  | nil => rfl
  | cons key path => rw [lookup, if_pos h, if_neg (List.cons_ne_nil key path)]

theorem lookup_cons (v : Value) (key : List Char) (path : List (List Char)) :
    lookup v (key :: path) = member v key >>= fun w => lookup w path := by
  by_cases ha : isAbsent v = true
  · have hm : lookup .missing path = .ok .missing := by
      rw [lookup_absent rfl, ite_self]
    rw [lookup, if_pos ha, member_absent ha]
    exact hm.symm
  · rw [lookup, if_neg ha]
    cases member v key <;> rfl

theorem lookup_eq_foldlM (v : Value) (path : List (List Char)) :
    lookup v path = path.foldlM member v := by
  induction path generalizing v with
  | nil => rfl
  | cons key path ih =>
    rw [lookup_cons, List.foldlM_cons]
    exact congrArg (member v key >>= ·) (funext ih)

theorem lookup_append (v : Value) (p q : List (List Char)) :
    lookup v (p ++ q) = lookup v p >>= fun w => lookup w q := by
  simp only [lookup_eq_foldlM, List.foldlM_append]

theorem lookup_concat (v : Value) (path : List (List Char)) (key : List Char) :
    lookup v (path ++ [key]) = lookup v path >>= fun w => member w key := by
  simp only [lookup_eq_foldlM, List.foldlM_append, List.foldlM_cons, List.foldlM_nil, bind_pure]

/-- A path that ends at `none`: it has no keys and starts there, or its last key holds it. -/
inductive EndsAtNone (v : Value) : List (List Char) → Prop where
  | here (h : v = .none) : EndsAtNone v []
  | there {path : List (List Char)} {key : List Char} {w : Value} (hw : lookup v path = .ok w)
    (hm : member w key = .ok .none) : EndsAtNone v (path ++ [key])

theorem lookup_none_iff (v : Value) (path : List (List Char)) :
    lookup v path = .ok .none ↔ EndsAtNone v path := by
  constructor
  · intro h
    rcases List.eq_nil_or_concat path with rfl | ⟨front, key, rfl⟩
    · exact .here (Except.ok.inj h)
    · rw [List.concat_eq_append] at h ⊢
      rw [lookup_concat] at h
      obtain ⟨w, hw, hm⟩ := Results.ok_of_bind h
      exact .there hw hm
  · intro h
    cases h with
    | here h => rw [h, lookup]
    | there hw hm =>
      rw [lookup_concat, hw]
      exact hm

/-- What following one path after another comes to. -/
structure Composes (v : Value) (p q : List (List Char)) : Prop where
  /-- The whole path finds what its rest finds in what its front finds, and fails where they do. -/
  joined : lookup v (p ++ q) = lookup v p >>= fun w => lookup w q
  /-- After `none`, or where something is missing, whatever the rest asks for is missing. -/
  lost : ∀ w, lookup v p = .ok w → isAbsent w = true → q ≠ [] → lookup v (p ++ q) = .ok .missing
  /-- At the very end, and only there, `none` is found as it is. -/
  kept : lookup v p = .ok .none ↔ EndsAtNone v p

/-- Paths compose, whatever they are followed in. -/
theorem lookup_composes (v : Value) (p q : List (List Char)) : Composes v p q where
  joined := lookup_append v p q
  lost := by
    intro w hw ha hq
    rw [lookup_append, hw]
    exact (lookup_absent ha q).trans (by rw [if_neg hq])
  kept := lookup_none_iff v p

/-- A member that holds `none` is found at the end of a path, and has no members itself. -/
example : lookup (.dict [(.str "a", .none)]) ["a".toList] = .ok .none ∧
    lookup (.dict [(.str "a", .none)]) ["a".toList, "b".toList] = .ok .missing := ⟨rfl, rfl⟩

theorem splitAt_join (sep : Char) (cs ds : List Char) :
    splitAt sep (cs ++ sep :: ds) = splitAt sep cs ++ splitAt sep ds := by
  induction cs with
  | nil =>
    obtain ⟨p, ps, hs⟩ := List.exists_cons_of_ne_nil (UnitTexts.splitAt_ne_nil sep ds)
    simp [splitAt, hs]
  | cons c cs ih =>
    obtain ⟨p, ps, hs⟩ := List.exists_cons_of_ne_nil (UnitTexts.splitAt_ne_nil sep cs)
    rw [List.cons_append, splitAt, ih, splitAt, hs]
    by_cases hc : c = sep <;> simp [hc]

theorem groupName_append (p q : List (List Char)) (item : Value) :
    groupName (p ++ q) item = lookup item p >>= groupName q := by
  rw [groupName, lookup_append]
  cases lookup item p <;> rfl

/-- An item's group by a key with a point is the group of what the front of the key finds in it, by
the rest of the key. -/
theorem groupName_joined (item : Value) (s t : String) :
    groupName (pathOf (.str (s ++ "." ++ t))) item =
      lookup item (pathOf (.str s)) >>= groupName (pathOf (.str t)) := by
  have hp : pathOf (.str (s ++ "." ++ t)) = pathOf (.str s) ++ pathOf (.str t) := by
    have hs := splitAt_join '.' s.toList t.toList
    simpa [pathOf, Value.text, String.toList_append] using hs
  rw [hp, groupName_append]

end Reckoner.Proofs.Paths
