import Mathlib.Data.List.Nodup
import Reckoner.Aggregate.Group

namespace Reckoner.Proofs.Partitions
open Aggregate

/-- Whether what a path finds in an item has a label. -/
def isNamed (path : List (List Char)) (name : List Char) (item : Value) : Bool :=
  (groupName path item).toOption = some name

theorem isNamed_iff {path : List (List Char)} {name : List Char} {item : Value} :
    isNamed path name item = true ↔
      ∃ v, lookup item path = .ok v ∧ hasLabel v = true ∧ label v = name := by
  unfold isNamed groupName
  cases lookup item path with
  | error e => simp [Except.toOption]
  | ok v => cases h : hasLabel v <;> simp [Except.toOption, h]

/-- Groups that share out items by their names: nothing is lost, repeated or moved. -/
structure Partition (path : List (List Char)) (items : List Value) (gs : Groups) : Prop where
  distinct : gs.names.Nodup
  /-- The first item of a group comes before that of every later group. -/
  ordered : gs.names.Pairwise fun m n =>
    items.findIdx (isNamed path m) < items.findIdx (isNamed path n)
  inhabited : ∀ g ∈ gs, g.2 ≠ []
  members : ∀ g ∈ gs, g.2 = items.filter (isNamed path g.1)
  whole : (gs.flatMap Prod.snd).Perm items

section
variable {name : List Char} {item : Value} {gs : Groups}

theorem add_fresh (h : name ∉ gs.names) : gs.add name item = gs ++ [(name, [item])] := by
  induction gs with
  | nil => rfl
  | cons g gs ih =>
    obtain ⟨n, items⟩ := g
    obtain ⟨hn, hgs⟩ := not_or.mp (mt List.mem_cons.mpr h)
    rw [Groups.add, if_neg (Ne.symm hn), ih hgs, List.cons_append]

theorem add_known (item : Value) (h : name ∈ gs.names) :
    ∃ before items after, gs = before ++ (name, items) :: after ∧
      gs.add name item = before ++ (name, items ++ [item]) :: after := by
  induction gs with
  | nil => cases h
  | cons g gs ih =>
    obtain ⟨n, items⟩ := g
    by_cases hn : n = name
    · subst n
      exact ⟨[], items, gs, rfl, by rw [Groups.add, if_pos rfl, List.nil_append]⟩
    · obtain ⟨before, found, after, rfl, ha⟩ := ih ((List.mem_cons.mp h).resolve_left (Ne.symm hn))
      exact ⟨(n, items) :: before, found, after, rfl,
        by rw [Groups.add, if_neg hn, ha, List.cons_append]⟩

theorem nodup_add (hd : gs.names.Nodup) (name : List Char) (item : Value) :
    (gs.add name item).names.Nodup := by
  rw [Groups.names_add]
  split
  · exact hd
  · next hnew => exact List.nodup_append_comm.mp (List.nodup_cons.mpr ⟨hnew, hd⟩)

/-- An item more is one more in all groups together. -/
theorem flatMap_add (name : List Char) (item : Value) (gs : Groups) :
    ((gs.add name item).flatMap Prod.snd).Perm (gs.flatMap Prod.snd ++ [item]) := by
  by_cases h : name ∈ gs.names
  · obtain ⟨before, items, after, rfl, ha⟩ := add_known item h
    rw [ha]
    simp only [List.flatMap_append, List.flatMap_cons, List.append_assoc]
    exact ((List.perm_append_comm).append_left items).append_left _
  · rw [add_fresh h, List.flatMap_append, List.flatMap_singleton]

/-- A group after an item was added: another one as before, or that of the name with one more. -/
theorem mem_add (hd : gs.names.Nodup) {g : List Char × List Value} (hg : g ∈ gs.add name item) :
    (g ∈ gs ∧ name ≠ g.1) ∨
      ∃ items, g = (name, items ++ [item]) ∧
        ((name, items) ∈ gs ∨ name ∉ gs.names ∧ items = []) := by
  by_cases h : name ∈ gs.names
  · obtain ⟨before, items, after, rfl, ha⟩ := add_known item h
    simp only [Groups.names, List.map_append, List.map_cons, List.nodup_middle] at hd
    have hne : g ∈ before ++ after → name ≠ g.1 := by
      intro hg he
      rw [he, ← List.map_append] at hd
      exact (List.nodup_cons.mp hd).1 (List.mem_map_of_mem hg)
    rw [ha, List.mem_append, List.mem_cons] at hg
    rcases hg with hg | rfl | hg
    · exact .inl ⟨List.mem_append_left _ hg, hne (List.mem_append_left _ hg)⟩
    · exact .inr ⟨items, rfl, .inl (by simp)⟩
    · exact .inl ⟨by simp [hg], hne (List.mem_append_right _ hg)⟩
  · rw [add_fresh h, List.mem_append, List.mem_singleton] at hg
    rcases hg with hg | rfl
    · exact .inl ⟨hg, fun he => h (List.mem_map.mpr ⟨g, hg, he.symm⟩)⟩
    · exact .inr ⟨[], rfl, .inr ⟨h, rfl⟩⟩

end

section
variable {path : List (List Char)} {done : List Value} {gs : Groups}

theorem partition_nil (path : List (List Char)) : Partition path [] [] where
  distinct := List.nodup_nil
  ordered := List.Pairwise.nil
  inhabited := by simp
  members := by simp
  whole := List.Perm.refl []

/-- The first item of a group stays where it is when items follow. -/
theorem Partition.findIdx_append (h : Partition path done gs) {n : List Char} (hn : n ∈ gs.names)
    (items : List Value) :
    (done ++ items).findIdx (isNamed path n) = done.findIdx (isNamed path n) ∧
      done.findIdx (isNamed path n) < done.length := by
  obtain ⟨g, hg, rfl⟩ := List.mem_map.mp hn
  obtain ⟨v, hv⟩ := List.exists_mem_of_ne_nil _ (h.inhabited g hg)
  rw [h.members g hg, List.mem_filter] at hv
  have hlt := List.findIdx_lt_length_of_exists ⟨v, hv⟩
  rw [List.findIdx_append, if_pos hlt]
  exact ⟨rfl, hlt⟩

theorem groupInto_named {name : List Char} {item : Value} {items : List Value}
    (hi : groupName path item = .ok name) :
    Aggregate.groupInto path gs (item :: items) =
      Aggregate.groupInto path (gs.add name item) items := by
  rw [Aggregate.groupInto, hi]

theorem filter_append_named {n name : List Char} {item : Value}
    (hi : groupName path item = .ok name) :
    (done ++ [item]).filter (isNamed path n) =
      done.filter (isNamed path n) ++ if name = n then [item] else [] := by
  have hb : isNamed path n item = decide (name = n) := by
    simp [isNamed, hi, Except.toOption]
  rw [List.filter_append, List.filter_singleton, hb]
  by_cases hn : name = n <;> simp [hn]

/-- The name of an item is that of a group. -/
theorem Partition.mem_names (h : Partition path done gs) {n : List Char} {v : Value} (hv : v ∈ done)
    (hn : isNamed path n v = true) : n ∈ gs.names := by
  obtain ⟨g, hg, hm⟩ := List.mem_flatMap.mp (h.whole.mem_iff.mpr hv)
  rw [h.members g hg, List.mem_filter] at hm
  obtain ⟨w, hw, -, rfl⟩ := isNamed_iff.mp hn
  obtain ⟨w', hw', -, he⟩ := isNamed_iff.mp hm.2
  rw [hw] at hw'
  cases hw'
  exact List.mem_map.mpr ⟨g, hg, he.symm⟩

/-- One more item, added to the group of its name. -/
theorem Partition.add (h : Partition path done gs) {name : List Char} {item : Value}
    (hi : groupName path item = .ok name) :
    Partition path (done ++ [item]) (gs.add name item) where
  distinct := nodup_add h.distinct name item
  ordered := by
    have hold : gs.names.Pairwise fun m n =>
        (done ++ [item]).findIdx (isNamed path m) < (done ++ [item]).findIdx (isNamed path n) := by
      refine h.ordered.imp_of_mem fun hm hn hlt => ?_
      rwa [(h.findIdx_append hm _).1, (h.findIdx_append hn _).1]
    rw [Groups.names_add]
    split
    · exact hold
    · next hnew =>
      -- No item so far has the new name, so its first item is the one that is added.
      have hlast : done.length ≤ (done ++ [item]).findIdx (isNamed path name) := by
        rw [List.findIdx_append, if_neg]
        · exact Nat.le_add_left _ _
        · intro hlt
          exact hnew (h.mem_names (List.getElem_mem hlt) (List.findIdx_getElem (w := hlt)))
      refine List.pairwise_append.mpr ⟨hold, List.pairwise_singleton _ _, ?_⟩
      intro m hm n hn
      rw [List.mem_singleton.mp hn, (h.findIdx_append hm _).1]
      exact Nat.lt_of_lt_of_le (h.findIdx_append hm [item]).2 hlast
  inhabited := by
    intro g hg
    rcases mem_add h.distinct hg with ⟨hg, -⟩ | ⟨items, rfl, -⟩
    · exact h.inhabited g hg
    · simp
  members := by
    intro g hg
    rw [filter_append_named hi]
    rcases mem_add h.distinct hg with ⟨hg, hne⟩ | ⟨items, rfl, hg | ⟨hnew, rfl⟩⟩
    · rw [if_neg hne, List.append_nil, h.members g hg]
    · rw [if_pos rfl, ← h.members (name, items) hg]
    · have hnone : done.filter (isNamed path name) = [] :=
        List.filter_eq_nil_iff.mpr fun v hv hn => hnew (h.mem_names hv hn)
      rw [if_pos rfl, hnone]
  whole := (flatMap_add name item gs).trans (h.whole.append_right [item])

/-- Items that are grouped one after the other keep what is grouped a partition. -/
theorem Partition.groupInto (h : Partition path done gs) {items : List Value} {gs' : Groups}
    (hg : groupInto path gs items = .ok gs') : Partition path (done ++ items) gs' := by
  induction items generalizing done gs with
  | nil =>
    cases hg
    rwa [List.append_nil]
  | cons item items ih =>
    cases hi : groupName path item with
    | error e => simp [Aggregate.groupInto, hi] at hg
    | ok name =>
      rw [groupInto_named hi] at hg
      rw [List.append_cons]
      exact ih (h.add hi) hg

end

/-- Whenever a list of items is grouped by a path, the groups share out the items: names are
distinct and in the order of their first items, and each group holds the items of its name. -/
theorem groupBy_partitions {items : List Value} {key : String} {gs : Groups}
    (h : groupBy (.list items) (.str key) = .ok gs) :
    Partition (Text.splitAt '.' key.toList) items gs :=
  (partition_nil _).groupInto h

def tagged (v : Value) : Value := .dict [(.str "tag", v)]

/-- An integer, its text and the same number share a group, as do no tag and its label. -/
theorem tags_partitioned :
    groupBy (.list [tagged (.int 1), .none, tagged (.str "1"), tagged (.float (.ofInt 1)),
        tagged (.str "undefined")]) (.str "tag") =
      .ok [("1".toList, [tagged (.int 1), tagged (.str "1"), tagged (.float (.ofInt 1))]),
        ("undefined".toList, [.none, tagged (.str "undefined")])] ∧
    Partition ["tag".toList]
      [tagged (.int 1), .none, tagged (.str "1"), tagged (.float (.ofInt 1)),
        tagged (.str "undefined")]
      [("1".toList, [tagged (.int 1), tagged (.str "1"), tagged (.float (.ofInt 1))]),
        ("undefined".toList, [.none, tagged (.str "undefined")])] := by
  have hlabel : label (.float (.ofInt 1)) = "1".toList := by decide +kernel
  have hname : groupName ["tag".toList] (tagged (.float (.ofInt 1))) = .ok "1".toList := by
    rw [← hlabel]
    rfl
  generalize tagged (.float (.ofInt 1)) = item at hname ⊢
  have hg : groupBy (.list [tagged (.int 1), .none, tagged (.str "1"), item,
        tagged (.str "undefined")]) (.str "tag") =
      .ok [("1".toList, [tagged (.int 1), tagged (.str "1"), item]),
        ("undefined".toList, [.none, tagged (.str "undefined")])] := by
    change groupInto ["tag".toList] [] _ = _
    rw [groupInto_named rfl, groupInto_named rfl, groupInto_named rfl, groupInto_named hname,
      groupInto_named rfl]
    rfl
  exact ⟨hg, groupBy_partitions hg⟩

end Reckoner.Proofs.Partitions
