import Reckoner.Proofs.Paging
import Reckoner.Tools.GameData

namespace Reckoner.Proofs.Fetching
open Catalogue Client Tools Paging

def argument (es : Entries) (name : String) : Value := (es.field? name).getD .none

def chosenAs (es : Entries) (name filter : String) : Entries :=
  if (argument es name).truthy then [(.str filter, argument es name)] else []

/-- The arguments that are filters and not empty, under the names of the filters. -/
def chosen (es : Entries) : Entries :=
  chosenAs es "platform" "platforms" ++ chosenAs es "genre" "genres" ++
    chosenAs es "dates" "dates" ++ chosenAs es "metacritic" "metacritic"

/-- The page size that an argument gives: none if it is empty, else its integer or the greatest
page size. -/
inductive Sized (v : Value) : Option Int → Prop where
  | absent (empty : v.truthy = false) : Sized v none
  | given (n : Int) (filled : v.truthy = true) (integer : v.toInteger = .ok n) :
      Sized v (some (min n maxPageSize))

def sizeEntry (size : Option Int) : Entries :=
  (size.map fun n => (.str "page_size", .int n)).toList

/-- The filters of a call: the arguments that are filters, and the page size. -/
def filters (es : Entries) (size : Option Int) : Entries := chosen es ++ sizeEntry size

def written (e : Value × Value) : Value × Value := (e.1, .str (String.ofList e.2.text))

/-- The request for games with these filters: each of them as its text, and then the key. -/
def gamesRequest (c : Client) (es : Entries) (size : Option Int) : Request where
  url := c.baseUrl ++ "/games"
  headers := headers
  params := .dict ((sizeEntry size ++ chosen es).map written ++ [(.str "key", c.key)])
  timeout := c.timeout

/-- Arguments ask for a request with a page size when they give it and all filters can be
written. -/
structure Asks (es : Entries) (size : Option Int) : Prop where
  sized : Sized (argument es "page_size") size
  written : ∀ e ∈ filters es size, e.2.hasText = true

/-- What options hold under a name: nothing, or a value that is sent. -/
inductive Holds (options : Entries) (name : String) : Entries → Prop where
  | nothing (absent : options.field? name = none) : Holds options name []
  | value (v : Value) (found : options.field? name = some v) (sent : isSent name v = true) :
      Holds options name [(.str name, v)]

section
variable {options es : Entries} {name : String}

theorem Holds.parameter (h : Holds options name es) :
    (parameter? options name).toList = es.map written := by
  cases h with
  | nothing absent =>
    rw [parameter?, absent]
    simp [isSent, Value.truthy]
  | value v found sent =>
    rw [parameter?, found]
    simp only [Option.getD_some, sent, if_true]
    rfl

theorem Holds.writable (h : Holds options name es) :
    isWritable options name = es.all fun e => e.2.hasText := by
  cases h with
  | nothing absent =>
    rw [isWritable, absent]
    simp [isSent, Value.truthy]
  | value v found sent => simp [isWritable, found, sent]

/-- Options are sent, and can be written, as what they hold under the names. -/
theorem parameters_of_holds {names : List String} {held : List Entries}
    (h : List.Forall₂ (Holds options) names held) :
    (names.flatMap fun name => (parameter? options name).toList) = held.flatten.map written ∧
      names.all (isWritable options) = held.flatten.all fun e => e.2.hasText := by
  induction h with
  | nil => exact ⟨rfl, rfl⟩
  | @cons name es names held hn _ ih =>
    obtain ⟨hp, hw⟩ := ih
    constructor
    · rw [List.flatMap_cons, hn.parameter, hp, List.flatten_cons, List.map_append]
    · rw [List.all_cons, hn.writable, hw, List.flatten_cons, List.all_append]

end

theorem field?_append (xs ys : Entries) (name : String) :
    (xs ++ ys).field? name = (xs.field? name).or (ys.field? name) := by
  induction xs with
  | nil => rfl
  | cons x xs ih =>
    rw [List.cons_append, Entries.field?, Entries.field?, Entries.get?, Entries.get?]
    split
    · rfl
    · exact ih

section
variable (es : Entries) (size : Option Int)

theorem field?_chosenAs (name filter k : String) : (chosenAs es name filter).field? k =
    if filter = k then (chosenAs es name filter).head?.map Prod.snd else none := by
  unfold chosenAs
  split <;> simp

theorem field?_sizeEntry (k : String) : (sizeEntry size).field? k =
    if "page_size" = k then size.map .int else none := by
  cases size <;> simp [sizeEntry]

theorem holds_chosenAs {options : Entries} {name filter : String}
    (hf : options.field? filter = (chosenAs es name filter).field? filter)
    (hn : pageNames.contains filter = false) : Holds options filter (chosenAs es name filter) := by
  rw [field?_chosenAs, if_pos rfl] at hf
  unfold chosenAs at hf ⊢
  split at hf
  · next hv =>
    rw [if_pos hv]
    exact .value _ hf (by simp only [isSent, hn, Bool.false_eq_true, if_false, hv])
  · next hv =>
    rw [if_neg hv]
    exact .nothing hf

theorem holds_sizeEntry {options : Entries} (hf : options.field? "page_size" = size.map .int) :
    Holds options "page_size" (sizeEntry size) := by
  cases size with
  | none => exact .nothing hf
  | some n => exact .value _ hf rfl

/-- The page size is sent first, then the filters. -/
theorem filters_hold : List.Forall₂ (Holds (filters es size)) filterNames
    [[], sizeEntry size, [], chosenAs es "platform" "platforms", chosenAs es "genre" "genres",
      chosenAs es "dates" "dates", chosenAs es "metacritic" "metacritic", []] := by
  refine .cons (.nothing ?_) <| .cons (holds_sizeEntry size ?_) <| .cons (.nothing ?_) <|
    .cons (holds_chosenAs es ?_ rfl) <| .cons (holds_chosenAs es ?_ rfl) <|
    .cons (holds_chosenAs es ?_ rfl) <| .cons (holds_chosenAs es ?_ rfl) <|
    .cons (.nothing ?_) .nil <;>
  simp [filters, chosen, field?_append, field?_chosenAs, field?_sizeEntry]

theorem parameters_filters :
    parameters (filters es size) = (sizeEntry size ++ chosen es).map written := by
  rw [parameters, List.filterMap_eq_flatMap_toList, (parameters_of_holds (filters_hold es size)).1]
  simp [chosen]

theorem writable_filters : filterNames.all (isWritable (filters es size)) =
    (filters es size).all fun e => e.2.hasText := by
  rw [(parameters_of_holds (filters_hold es size)).2, filters, List.all_append, Bool.and_comm,
    ← List.all_append]
  simp [chosen]

theorem textFilters_eq : textFilters es = chosen es := by
  rw [textFilters, List.filterMap_eq_flatMap_toList]
  simp only [filterArguments, List.flatMap_cons, List.flatMap_nil, chosen, chosenAs, argument,
    apply_ite Option.toList, Option.toList_some, Option.toList_none, List.append_nil,
    List.append_assoc]
  rfl

end

section
variable {es : Entries} {size : Option Int}

theorem Sized.le {v : Value} {n : Int} (h : Sized v (some n)) : n ≤ maxPageSize := by
  cases h
  exact min_le_right _ _

theorem Sized.unique {v : Value} {size' : Option Int} (h : Sized v size) (h' : Sized v size') :
    size = size' := by
  cases h with
  | absent he =>
    cases h' with
    | absent => rfl
    | given n hf => rw [he] at hf; cases hf
  | given n hf hn =>
    cases h' with
    | absent he => rw [he] at hf; cases hf
    | given m hf' hm =>
      rw [hn] at hm
      cases hm
      rfl

theorem pageSize_sized (h : Sized (argument es "page_size") size) :
    pageSize es = .ok (sizeEntry size) := by
  rw [pageSize, ← argument]
  cases h with
  | absent he =>
    rw [he]
    rfl
  | given n hf hn =>
    rw [hf, hn]
    rfl

theorem pageSize_unsized (h : ∀ size, ¬ Sized (argument es "page_size") size) :
    ∃ e, pageSize es = .error e := by
  rw [pageSize, ← argument]
  cases hv : (argument es "page_size").truthy with
  | false => exact absurd (.absent hv) (h none)
  | true =>
    cases hn : (argument es "page_size").toInteger with
    | error e => exact ⟨e, rfl⟩
    | ok n => exact absurd (.given n hv hn) (h _)

/-- The page size comes after the other filters, and may be wrong. -/
theorem filtersOf_dict (es : Entries) :
    filtersOf (.dict es) = (pageSize es).map (chosen es ++ ·) := by
  rw [← textFilters_eq]
  change (pageSize es >>= fun fs => pure (textFilters es ++ fs)) = _
  cases pageSize es <;> rfl

theorem filtersOf_sized (h : Sized (argument es "page_size") size) :
    filtersOf (.dict es) = .ok (filters es size) := by
  rw [filtersOf_dict, pageSize_sized h]
  rfl

theorem filtersOf_unsized (h : ∀ size, ¬ Sized (argument es "page_size") size) :
    ∃ e, filtersOf (.dict es) = .error e := by
  obtain ⟨e, he⟩ := pageSize_unsized h
  refine ⟨e, ?_⟩
  rw [filtersOf_dict, he]
  rfl

theorem query_filters : query (orElse (.dict (filters es size)) (.dict [])) =
    if (filters es size).all fun e => e.2.hasText then
      .ok ((sizeEntry size ++ chosen es).map written) else .error (.tooManyDigits none) := by
  have ho : orElse (.dict (filters es size)) (.dict []) = .dict (filters es size) := by
    cases filters es size <;> rfl
  rw [ho, ← parameters_filters, ← writable_filters]
  rfl

theorem requestFor_filters (c : Client) :
    c.requestFor "/games" ((sizeEntry size ++ chosen es).map written) = gamesRequest c es size := by
  rw [← parameters_filters, requestFor, withKey_parameters, parameters_filters]
  rfl

/-- Arguments that ask for a request send it, and its answer is told with their filters. -/
theorem fetchGames_asked (h : Asks es size) (c : Client) (n : Network) :
    fetchGames c (.dict es) n =
      ((n.send (gamesRequest c es size)).1.value.bind (gamesRecord (filters es size)),
        (n.send (gamesRequest c es size)).2) := by
  rw [fetchGames, filtersOf_sized h.sized]
  dsimp only
  rw [games, query_filters, if_pos (List.all_eq_true.mpr h.written)]
  dsimp only
  rw [Exchange.andThen_eq, fetch, requestFor_filters]

/-- Other arguments send nothing; what is wrong with them is the same for every client. -/
theorem fetchGames_unasked (h : ∀ size, ¬ Asks es size) :
    ∃ e, ∀ c n, fetchGames c (.dict es) n = (.error e, n) := by
  by_cases hs : ∃ size, Sized (argument es "page_size") size
  · obtain ⟨size, hs⟩ := hs
    have hw : ¬ (filters es size).all (fun e => e.2.hasText) = true :=
      fun hw => h size ⟨hs, List.all_eq_true.mp hw⟩
    refine ⟨.tooManyDigits none, fun c n => ?_⟩
    rw [fetchGames, filtersOf_sized hs]
    dsimp only
    rw [games, query_filters, if_neg hw]
    rfl
  · obtain ⟨e, he⟩ := filtersOf_unsized (not_exists.mp hs)
    refine ⟨e, fun c n => ?_⟩
    rw [fetchGames, he]
    rfl

end

end Reckoner.Proofs.Fetching
