import Reckoner.Proofs.Fetching

namespace Reckoner.Proofs.PageSizes
open Catalogue Tools Fetching

/-- The page size that a request carries, if any. -/
def carried (r : Request) : Option Value :=
  match r.params with
  | .dict es => Entries.field? "page_size" es
  | _ => none

def decimal (n : Int) : Value := .str (String.ofList (intText n))

theorem decimal_inj {m n : Int} (h : decimal m = decimal n) : m = n := by
  rw [decimal, decimal, Value.str.injEq] at h
  exact JsonTexts.intText_inj (String.ofList_injective h)

/-- A request with no page size, or with one that the tool offers. -/
def Bounded (r : Request) : Prop :=
  carried r = none ∨ ∃ n, 1 ≤ n ∧ n ≤ maxPageSize ∧ carried r = some (decimal n)

theorem field?_written (es : Entries) (k : String) :
    Entries.field? k (es.map written) =
      (es.field? k).map fun v => .str (String.ofList v.text) := by
  induction es with
  | nil => rfl
  | cons e es ih =>
    simp only [Entries.field?, Entries.get?, List.map_cons, written, apply_ite (Option.map _),
      Option.map_some]
    exact if_congr Iff.rfl rfl ih

variable {es : Entries} {size : Option Int}

theorem carried_gamesRequest (c : Client) :
    carried (gamesRequest c es size) = size.map decimal := by
  have hsize : Entries.field? "page_size" (sizeEntry size ++ chosen es) = size.map .int := by
    rw [field?_append, field?_sizeEntry, if_pos rfl]
    simp [chosen, field?_append, field?_chosenAs]
  have hkey : Entries.field? "page_size" [(.str "key", c.key)] = none := by simp
  rw [carried, gamesRequest]
  dsimp only
  rw [field?_append, field?_written, hsize, hkey, Option.or_none, Option.map_map]
  rfl

/-- A request with a page size that is at most the greatest one is bounded when it is positive. -/
theorem bounded_gamesRequest_iff (h : Asks es size) (c : Client) :
    Bounded (gamesRequest c es size) ↔ ∀ n, Asks es (some n) → 1 ≤ n := by
  rw [Bounded, carried_gamesRequest]
  constructor
  · intro hb n hn
    obtain rfl := h.sized.unique hn.sized
    obtain hb | ⟨m, hm, -, hb⟩ := hb
    · cases hb
    · rwa [decimal_inj (Option.some.inj hb)]
  · intro hpos
    cases size with
    | none => exact .inl rfl
    | some n => exact .inr ⟨n, hpos n h, h.sized.le, rfl⟩

/-- A call for games makes one request if its arguments ask for one, and it carries the page size
that they give. That is one that the tool offers unless it is below one. -/
theorem bounded_iff (c : Client) (es : Entries) (n : Network) :
    ∃ made, (fetchGames c (.dict es) n).2.requests = n.requests ++ made ∧
      (made = [] ↔ ∀ size, ¬ Asks es size) ∧
      (∀ r ∈ made, ∃ size, Asks es size ∧ carried r = size.map decimal) ∧
      ((∀ r ∈ made, Bounded r) ↔ ∀ size, Asks es (some size) → 1 ≤ size) := by
  by_cases h : ∃ size, Asks es size
  · obtain ⟨size, h⟩ := h
    refine ⟨[gamesRequest c es size], ?_, ?_, ?_, ?_⟩
    · rw [fetchGames_asked h, Network.requests_send]
    · exact iff_of_false (List.cons_ne_nil _ _) fun hn => hn size h
    · intro r hr
      obtain rfl := List.mem_singleton.mp hr
      exact ⟨size, h, carried_gamesRequest c⟩
    · rw [List.forall_mem_singleton]
      exact bounded_gamesRequest_iff h c
  · rw [not_exists] at h
    obtain ⟨e, he⟩ := fetchGames_unasked h
    refine ⟨[], by rw [he, List.append_nil], iff_of_true rfl h, by simp, ?_⟩
    exact iff_of_true (by simp) fun n hn => absurd hn (h _)

def minusFive : Entries := [(.str "page_size", .int (-5))]

theorem minusFive_asks : Asks minusFive (some (-5)) where
  sized := .given (-5) rfl rfl
  written := List.all_eq_true.mp rfl

/-- A negative page size is sent as it is given. -/
theorem minusFive_sent :
    Asks minusFive (some (-5)) ∧
      ∃ made, (fetchGames Paging.asker (.dict minusFive) ⟨[], []⟩).2.requests = made ∧
        ∃ r ∈ made, carried r = some (.str "-5") ∧ ¬ Bounded r := by
  obtain ⟨made, hm, hasked, hcarried, hb⟩ := bounded_iff Paging.asker minusFive ⟨[], []⟩
  refine ⟨minusFive_asks, made, hm, ?_⟩
  have hn : ¬ ∀ r ∈ made, Bounded r := fun h => absurd (hb.mp h _ minusFive_asks) (by decide)
  obtain ⟨r, hr⟩ := not_forall.mp hn
  obtain ⟨hr, hrb⟩ := Classical.not_imp.mp hr
  obtain ⟨size, hs, hc⟩ := hcarried r hr
  obtain rfl := hs.sized.unique minusFive_asks.sized
  exact ⟨r, hr, hc, hrb⟩

end Reckoner.Proofs.PageSizes
