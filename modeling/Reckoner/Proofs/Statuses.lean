import Reckoner.Proofs.Paging

namespace Reckoner.Proofs.Statuses
open Catalogue Client Paging Crossing JsonValues

inductive Operation where
  | games (filters : Value)
  | allGames (filters : Value)
  | genres
  | platforms

def Operation.run (c : Client) : Operation → Exchange Value
  | games filters => c.games filters
  | allGames filters => c.allGames filters
  | genres => c.genres
  | platforms => c.platforms

section
variable {α β : Type}

/-- A result that is no refusal by the catalogue, or is one for an error status. -/
def Justified (r : Except Failure α) : Prop :=
  ∀ status reason, r = .error (.catalogue status reason) → 400 ≤ status

theorem justified_ok (a : α) : Justified (.ok a) := by
  rintro _ _ ⟨⟩

theorem Justified.error {e : Failure} (h : Justified (.error e : Except Failure α)) :
    Justified (.error e : Except Failure β) :=
  fun status reason he => h status reason (congrArg Except.error (Except.error.inj he))

theorem Justified.bind {r : Except Failure α} {f : α → Except Failure β} (hr : Justified r)
    (hf : ∀ a, Justified (f a)) : Justified (r.bind f) := by
  cases r with
  | error e => exact hr.error
  | ok a => exact hf a

theorem Justified.map {r : Except Failure α} (hr : Justified r) (f : α → β) :
    Justified (r.map f) := by
  cases r with
  | error e => exact hr.error
  | ok a => exact justified_ok (f a)

end

theorem readBody_justified (body : String) : Justified (readBody body) := by
  intro status reason h
  unfold readBody Except.mapError at h
  dsimp only at h
  split at h <;> cases h

theorem value_of_error {status : Int} (h : 400 ≤ status) (reason : Option String) (body : String) :
    (Response.answered status reason body).value =
      .error (.catalogue status (reason.getD "None")) :=
  if_neg (Int.not_lt.mpr h)

theorem value_of_other {status : Int} (h : status < 400) (reason : Option String) (body : String) :
    (Response.answered status reason body).value = readBody body :=
  if_pos h

theorem value_justified (x : Response) : Justified x.value := by
  cases x with
  | raised f => rintro _ _ ⟨⟩
  | answered status reason body =>
    by_cases hs : status < 400
    · rw [value_of_other hs]
      exact readBody_justified body
    · rw [value_of_error (Int.not_lt.mp hs)]
      rintro _ _ ⟨⟩
      exact Int.not_lt.mp hs

theorem entries_justified (member : String) (v : Value) : Justified (v.entries member) := by
  intro status reason h
  cases v <;> cases h

theorem iterate_justified (v : Value) : Justified v.iterate := by
  intro status reason h
  cases v <;> cases h

theorem memberOr_justified (name : String) (default answer : Value) :
    Justified (memberOr name default answer) :=
  (entries_justified "get" answer).map _

theorem pageOf_justified (answer : Value) : Justified (pageOf answer) := by
  refine (entries_justified "get" answer).bind fun es => ?_
  exact (iterate_justified _).bind fun found => justified_ok _

theorem query_justified (options : Value) : Justified (query options) := by
  refine (entries_justified "get" options).bind fun es => ?_
  split
  · exact justified_ok _
  · rintro _ _ ⟨⟩

section
variable {c : Client} {es : Entries} {page : Nat} {xs : List Response} {sent : List Request}

theorem games_justified (filters : Value) (n : Network) : Justified (c.games filters n).1 := by
  have hq := query_justified (orElse filters (.dict []))
  rw [games]
  cases hp : query (orElse filters (.dict [])) with
  | error e =>
    rw [hp] at hq
    exact hq.error
  | ok params => exact value_justified _

theorem gamesPage_justified (n : Network) : Justified (c.gamesPage es page n).1 := by
  rw [gamesPage, Exchange.andThen_eq]
  exact (games_justified _ n).bind pageOf_justified

theorem gamesFrom_justified : Justified (c.gamesFrom es page xs sent).1 := by
  induction xs generalizing page sent with
  | nil => exact (gamesPage_justified _).map _
  | cons x xs ih =>
    have hx : Justified (c.gamesPage es page ⟨x :: xs, sent⟩).1 := gamesPage_justified _
    rw [gamesFrom]
    split
    · next e n he =>
      rw [he] at hx
      exact hx.error
    · exact justified_ok _
    · exact ih.map _

theorem results_justified (endpoint : String) (n : Network) :
    Justified (c.results endpoint n).1 := by
  have hr : Justified (c.fetch endpoint [] n).1 := value_justified _
  rw [results, Exchange.andThen]
  split
  · next e n' he => rwa [he] at hr
  · exact memberOr_justified _ _ _

/-- Whatever an operation comes to, it reports the catalogue only for an error status. -/
theorem run_justified (op : Operation) (n : Network) : Justified (op.run c n).1 := by
  cases op with
  | games filters => exact games_justified filters n
  | allGames filters =>
    rw [Operation.run, allGames]
    split
    · exact gamesFrom_justified.map _
    · rintro _ _ ⟨⟩
  | genres => exact results_justified _ _
  | platforms => exact results_justified _ _

end

section
variable {α β : Type} {x : Exchange α} {before rest : List Response} {y : Response}
variable {sent : List Request}

/-- A run over the answers `before`, one more and `rest` takes that one when it leaves no more than
the `rest`. -/
def Takes (x : Exchange α) (before : List Response) (y : Response) (rest : List Response)
    (sent : List Request) : Prop :=
  (x ⟨before ++ y :: rest, sent⟩).2.responses.length ≤ rest.length

/-- Such a run goes on from that answer as from its value. An error ends it there, with one request
for each answer taken. -/
structure GoesOn (x : Exchange α) (before rest : List Response) (sent : List Request)
    (onward : Except Failure Value → Except Failure α × Network) : Prop where
  value (y : Response) : x ⟨before ++ y :: rest, sent⟩ = onward y.value
  error : ∃ made : List Request, made.length = before.length + 1 ∧
    ∀ e, onward (.error e) = (.error e, ⟨rest, sent ++ made⟩)

/-- A run that leaves this answer does not take it. -/
theorem not_takes_of_left {zs : List Response}
    (h : (x ⟨before ++ y :: rest, sent⟩).2.responses = zs ++ y :: rest) :
    ¬ Takes x before y rest sent := by
  rw [Takes, h, List.length_append, List.length_cons]
  omega

theorem takes_andThen_iff {f : α → Except Failure β} :
    Takes (x.andThen f) before y rest sent ↔ Takes x before y rest sent := by
  rw [Takes, Exchange.andThen_eq, Takes]

theorem GoesOn.andThen {onward : Except Failure Value → Except Failure α × Network}
    (h : GoesOn x before rest sent onward) (f : α → Except Failure β) :
    GoesOn (x.andThen f) before rest sent fun r => ((onward r).1.bind f, (onward r).2) := by
  obtain ⟨hv, made, hm, he⟩ := h
  refine ⟨fun z => ?_, made, hm, fun e => ?_⟩
  · rw [Exchange.andThen_eq, hv]
  · rw [he]
    rfl

end

section
variable {c : Client} {es : Entries} {page : Nat} {before rest xs : List Response} {y : Response}
variable {sent : List Request}

theorem fetch_goesOn {endpoint : String} {params : Entries}
    (h : Takes (c.fetch endpoint params) before y rest sent) :
    ∃ onward, GoesOn (c.fetch endpoint params) before rest sent onward := by
  cases before with
  | nil =>
    exact ⟨fun r => (r, ⟨rest, sent ++ [c.requestFor endpoint params]⟩), fun _ => rfl, _, rfl,
      fun _ => rfl⟩
  | cons z zs => exact absurd h (not_takes_of_left rfl)

/-- A run that takes an answer sends a request for it. -/
theorem sendable_of_taken (h : (c.gamesFrom es page xs sent).2.responses.length ≤ rest.length)
    (hl : rest.length < xs.length) : Writable es ∧ Numbered page := by
  by_contra hs
  rw [gamesFrom_unsent hs] at h
  exact Nat.not_le.mpr hl h

/-- An answer is taken only after pages that hand over to it. -/
theorem gamesFrom_taken
    (h : (c.gamesFrom es page (before ++ y :: rest) sent).2.responses.length ≤ rest.length) :
    ∃ found made, made.length = before.length ∧ ∀ z,
      c.gamesFrom es page (before ++ z :: rest) sent =
        after found (turn c es (page + before.length) rest (sent ++ made) z.value) := by
  -- Each answer before must hand over to the next page: a run that ends with it would leave `y`.
  induction before generalizing page sent with
  | nil =>
    obtain ⟨hw, hn⟩ := sendable_of_taken h (by simp)
    refine ⟨[], [], rfl, fun z => ?_⟩
    rw [after_nil, List.append_nil]
    exact gamesFrom_cons hw hn z
  | cons b bs ih =>
    have hleft : ¬ (bs ++ y :: rest).length ≤ rest.length := by
      rw [List.length_append, List.length_cons]
      omega
    obtain ⟨hw, hn⟩ := sendable_of_taken h (by simp; omega)
    rw [List.cons_append, gamesFrom_cons hw hn, turn] at h
    cases hb : b.value.bind pageOf with
    | error e => exact absurd (by simpa only [hb] using h) hleft
    | ok p =>
      obtain ⟨found, more⟩ := p
      cases more with
      | false => exact absurd (by simpa only [hb] using h) hleft
      | true =>
        obtain ⟨found', made, hm, hz⟩ := ih (by simpa only [hb, after] using h)
        refine ⟨found ++ found', pageRequest c es page :: made, by rw [List.length_cons, hm]; rfl,
          fun z => ?_⟩
        rw [List.cons_append, gamesFrom_cons hw hn, turn, hb]
        dsimp only
        rw [hz, after_after, List.append_assoc, List.singleton_append, List.length_cons,
          Nat.add_assoc, Nat.add_comm 1]

/-- The games of all pages from the first on. -/
def pages (c : Client) (es : Entries) : Exchange (List Value) := fun n =>
  c.gamesFrom es 1 n.responses n.requests

theorem pages_goesOn (h : Takes (pages c es) before y rest sent) :
    ∃ onward, GoesOn (pages c es) before rest sent onward := by
  obtain ⟨found, made, hm, hz⟩ := gamesFrom_taken h
  refine ⟨fun r => after found (turn c es (1 + before.length) rest (sent ++ made) r), hz,
    made ++ [pageRequest c es (1 + before.length)], ?_, fun e => ?_⟩
  · rw [List.length_append, hm, List.length_singleton]
  · rw [← List.append_assoc]
    rfl

/-- All games are those of the pages, or the filters are no dictionary. -/
theorem allGames_cases (c : Client) (filters : Value) :
    (∃ es, c.allGames filters = (pages c es).andThen fun vs => .ok (.list vs)) ∨
      ∃ e, c.allGames filters = .fail e := by
  cases hf : orElse filters (.dict []) with
  | dict es =>
    refine .inl ⟨es, funext fun n => ?_⟩
    rw [Exchange.andThen_eq, allGames, hf, pages]
    dsimp only
    cases (c.gamesFrom es 1 n.responses n.requests).1 <;> rfl
  | _ => exact .inr ⟨_, by unfold allGames; rw [hf]; rfl⟩

theorem fail_takes_none {α : Type} {e : Failure} :
    ¬ Takes (.fail e : Exchange α) before y rest sent :=
  not_takes_of_left rfl

/-- Every operation goes on from an answer as from its value. -/
theorem run_goesOn {op : Operation} (h : Takes (op.run c) before y rest sent) :
    ∃ onward, GoesOn (op.run c) before rest sent onward := by
  cases op with
  | games filters =>
    rw [Operation.run, games] at h ⊢
    cases hq : query (orElse filters (.dict [])) with
    | error e =>
      rw [hq] at h
      exact absurd h fail_takes_none
    | ok params =>
      rw [hq] at h
      exact fetch_goesOn h
  | allGames filters =>
    rw [Operation.run] at h ⊢
    obtain ⟨es, hp⟩ | ⟨e, he⟩ := allGames_cases c filters
    · rw [hp] at h ⊢
      obtain ⟨onward, hg⟩ := pages_goesOn (takes_andThen_iff.mp h)
      exact ⟨_, hg.andThen _⟩
    · rw [he] at h
      exact absurd h fail_takes_none
  | genres =>
    obtain ⟨onward, hg⟩ := fetch_goesOn (takes_andThen_iff.mp h)
    exact ⟨_, hg.andThen _⟩
  | platforms =>
    obtain ⟨onward, hg⟩ := fetch_goesOn (takes_andThen_iff.mp h)
    exact ⟨_, hg.andThen _⟩

/-- The catalogue refuses the request after these answers: nothing is returned but the status and
its reason, and nothing is asked for any more. -/
def Refused (c : Client) (op : Operation) (before : List Response) (status : Int)
    (reason : Option String) (body : String) (rest : List Response) (sent : List Request) : Prop :=
  ∃ made : List Request, made.length = before.length + 1 ∧
    op.run c ⟨before ++ .answered status reason body :: rest, sent⟩ =
      (.error (.catalogue status (reason.getD "None")), ⟨rest, sent ++ made⟩)

/-- An answer that an operation takes ends it with its status exactly if that is an error status.
Any other status, that of a success or not, is one to the operation. -/
theorem refused_iff {op : Operation} {status : Int} {reason : Option String} {body : String}
    (h : Takes (op.run c) before (.answered status reason body) rest sent) :
    (Refused c op before status reason body rest sent ↔ 400 ≤ status) ∧
      (status < 400 → op.run c ⟨before ++ .answered status reason body :: rest, sent⟩ =
        op.run c ⟨before ++ .answered 200 reason body :: rest, sent⟩) := by
  obtain ⟨onward, hv, made, hm, he⟩ := run_goesOn h
  refine ⟨⟨?_, fun hs => ⟨made, hm, ?_⟩⟩, fun hs => ?_⟩
  · rintro ⟨made', -, hr⟩
    exact run_justified op _ status _ (congrArg Prod.fst hr)
  · rw [hv, value_of_error hs, he]
  · rw [hv, hv, value_of_other hs, value_of_other (by decide)]

end

def listed : String := "\x7b\"results\":[7]\x7d"

theorem listed_read : readBody listed = .ok (.dict (textKeyed [("results", .list [.int 7])])) := by
  have hv : JsonValue Json.Style.compact.specials
      (.dict (textKeyed [("results", .list [.int 7])])) := by
    refine .dict _ (by simp) ?_
    simpa using .list _ (by simpa using .small (k := 3) (by decide) (by decide))
  exact readBody_written hv rfl

/-- A list that comes with another status than that of a success is returned all the same. An error
status on a second page takes the first page along. -/
theorem unmodified_returned :
    Takes (Operation.genres.run asker) [] (.answered 304 (some "Not Modified") listed) [] [] ∧
      ¬ Refused asker .genres [] 304 (some "Not Modified") listed [] [] ∧
      (asker.genres ⟨[.answered 304 (some "Not Modified") listed], []⟩).1 = .ok (.list [.int 7]) ∧
      Takes ((Operation.allGames .none).run asker) (scripted.take 1) (.answered 503 none listed)
        [] [] ∧
      Refused asker (.allGames .none) (scripted.take 1) 503 none listed [] [] := by
  have hg : Takes (Operation.genres.run asker) [] (.answered 304 (some "Not Modified") listed)
      [] [] := takes_andThen_iff.mpr (Nat.le_refl 0)
  have hp : Takes ((Operation.allGames .none).run asker) (scripted.take 1)
      (.answered 503 none listed) [] [] := by
    obtain ⟨hfirst, -⟩ := List.forall₂_cons.mp scripted_gives
    have hone : Numbered 1 := rfl
    have htwo : Numbered (1 + 1) := rfl
    rw [Takes, Operation.run, allGames_eq .absent]
    dsimp only
    rw [scripted, List.take_succ_cons, List.cons_append, read_more nil_writable hone hfirst rfl,
      List.take_zero, List.nil_append, gamesFrom_cons nil_writable htwo, value_of_error (by decide)]
    exact Nat.le_refl 0
  obtain ⟨hr, hs⟩ := refused_iff hg
  refine ⟨hg, fun h => absurd (hr.mp h) (by decide), ?_, hp, (refused_iff hp).1.mpr (by decide)⟩
  have hrun := hs (by decide)
  rw [Operation.run, List.nil_append, List.nil_append] at hrun
  rw [hrun, genres, results, Exchange.andThen_eq, fetch, Network.send]
  dsimp only
  rw [value_of_other (by decide), listed_read]
  rfl

end Reckoner.Proofs.Statuses
