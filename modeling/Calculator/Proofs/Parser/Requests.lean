/-
How far a line asks its stream.

A parser fails where its stream does, so behind an error of the stream there are no more
requests, on any stream (`Parallel.asks`).  Behind the end there are none either, if the
stream tells its last token; that is part of what a line keeps to between two lines.  A
stream that tells another token has that one put back in place of the end, and is asked
for more.

So wherever an end or an error lies ahead, what a line asks for is a front of the answers
up to there.
-/
import Calculator.Proofs.Parser.Succession

namespace Calculator

open TokenStream (Exchange Exchanges TellsLast reads)

namespace TokenStream

variable {σ : Type} [TokenStream σ] {s m m' : σ}

/-- Of the answers of one stream, some are a front of the others. -/
theorem Exchanges.prefix_or_prefix {is js : List Item} (h : Exchanges s (reads is) m)
    (h' : Exchanges s (reads js) m') : is <+: js ∨ js <+: is := by
  induction is generalizing s js with
  | nil => exact Or.inl (List.nil_prefix)
  | cons i is ih =>
      cases js with
      | nil => exact Or.inr (List.nil_prefix)
      | cons j js =>
          cases h with
          | read hnext hrest =>
              cases h' with
              | read hnext' hrest' =>
                  rw [hnext] at hnext'
                  cases hnext'
                  simpa only [List.cons_prefix_cons, true_and] using ih hrest hrest'

/-- Answers that end with the first item of their kind do not go beyond another. -/
theorem Exchanges.prefix_of_notMem_dropLast {front us : List Item} {i : Item}
    (h : Exchanges s (reads front) m) (h' : Exchanges s (reads (us ++ [i])) m')
    (hi : i ∉ front.dropLast) : front <+: us ++ [i] := by
  rcases h.prefix_or_prefix h' with hfront | ⟨rest, rfl⟩
  · exact hfront
  · cases rest with
    | nil => simp
    | cons j rest =>
        rw [List.dropLast_append_of_ne_nil (by simp)] at hi
        exact absurd (by simp) hi

end TokenStream

namespace Parser

variable {σ α : Type} [TokenStream σ] {source : σ}

/-- The parser asks the stream within for tokens alone, and for none behind an error. -/
def Asks (r : Parser (Recording source) α) : Prop :=
  ∀ p step, r p = some step → ∃ (ts : List Token) (e? : Option TokenError),
    step.tokens.stream.log = p.stream.log ++ reads (ts.map .ok ++ e?.toList.map .error) ∧
      ∀ a, step.answer = .ok a → e? = none

private theorem asks_nothing {p : PushBack (Recording source)} {step : Step (Recording source) α}
    (h : step.tokens.stream = p.stream) : ∃ (ts : List Token) (e? : Option TokenError),
    step.tokens.stream.log = p.stream.log ++ reads (ts.map .ok ++ e?.toList.map .error) ∧
      ∀ a, step.answer = .ok a → e? = none :=
  ⟨[], none, by simp [h, reads], fun _ _ => rfl⟩

private theorem asks_token : (token : Parser (Recording source) Token).Asks := by
  intro p step h
  obtain ⟨stream, held⟩ := p
  cases held with
  | some t =>
      cases h
      exact asks_nothing rfl
  | none =>
      cases hnext : TokenStream.next stream with
      | mk i stream' =>
          have hlog := Recording.log_of_next hnext
          simp only [token, PushBack.next, hnext] at h
          cases i with
          | ok t =>
              cases h
              exact ⟨[t], none, hlog, fun _ _ => rfl⟩
          | error e =>
              cases h
              exact ⟨[], some e, hlog, fun _ ha => by cases ha⟩

/-- **Behind an error nothing more is asked for**, by any parser of a line. -/
theorem Parallel.asks {kind : Event → Prop} {mayGoOn : Prop} {r r' : Parser (Recording source) α}
    (h : Parallel kind mayGoOn r r') : r.Asks := by
  induction h with
  | pure | fail | emit =>
      intro p step hstep
      cases hstep
      exact asks_nothing rfl
  | exhausted | goesOn =>
      intro p step hstep
      cases hstep
  | token => exact asks_token
  | putBack =>
      intro p step hstep
      unfold Parser.putBack at hstep
      split at hstep
      · rename_i p' hput
        cases hstep
        refine asks_nothing ?_
        unfold PushBack.putBack at hput
        split at hput <;> cases hput
        rfl
      · cases hstep
        exact asks_nothing rfl
  | bind _ _ ih ih' =>
      intro p step hstep
      rcases bind_cases hstep with ⟨e, herror, hfirst⟩ | ⟨a, p', events, later, hfirst, hlater, rfl⟩
      · obtain ⟨ts, e?, hlog, -⟩ := ih p _ hfirst
        refine ⟨ts, e?, hlog, fun b hb => ?_⟩
        rw [herror] at hb
        cases hb
      · obtain ⟨ts, e?, hlog, hok⟩ := ih p _ hfirst
        obtain rfl : e? = none := hok a rfl
        obtain ⟨us, e?, hlog', hok'⟩ := ih' a p' _ hlater
        refine ⟨ts ++ us, e?, ?_, hok'⟩
        rw [hlog', hlog]
        simp [reads]

end Parser

namespace LineReader

variable {σ : Type} [TokenStream σ]

/-- A line that is read is read off the recording as well. -/
theorem exists_recorded_step {r : LineReader σ} {fuel : Nat} {out : Outcome σ}
    (h : r.readLine? fuel = some out) :
    ∃ step, Parser.line r.grammar fuel r.recorded.tokens = some step ∧
      r.exchanged? fuel = some step.tokens.stream.log := by
  have hmirror : Parser.line r.grammar fuel r.tokens
      = (Parser.line r.grammar fuel r.recorded.tokens).map (Step.map Recording.stream) :=
    Parser.mirrored_line (Recording.mirrors_stream r.tokens.stream) r.grammar fuel r.recorded.tokens
  obtain ⟨step', hstep', -⟩ := Option.map_eq_some_iff.1 h
  rw [hmirror, Option.map_eq_some_iff] at hstep'
  obtain ⟨step, hstep, -⟩ := hstep'
  refine ⟨step, hstep, ?_⟩
  show ((Parser.line r.grammar fuel r.recorded.tokens).map _).map _ = _
  rw [hstep]
  rfl

/-- **A line asks for no token behind an error, and for none behind the end** if the stream tells its
last token: wherever one of them lies ahead, the line has asked for a front of the answers up to
there. -/
theorem exists_requests {r : LineReader σ} {fuel : Nat} {out : Outcome σ}
    (h : r.readLine? fuel = some out) :
    ∃ front, r.exchanged? fuel = some (reads front) ∧
      (∀ us e m, Exchanges r.tokens.stream (reads (us ++ [.error e])) m →
        front <+: us ++ [.error e]) ∧
      (TellsLast r.tokens.stream → r.tokens.held = none → ∀ us i m, Item.closes i = true →
        Exchanges r.tokens.stream (reads (us ++ [i])) m → front <+: us ++ [i]) := by
  obtain ⟨step, hstep, hlog⟩ := exists_recorded_step h
  have hparallel : Parser.Parallel (fun _ => True) False
      (Parser.line r.grammar fuel : Parser (Recording r.tokens.stream) (Option Tree))
      (Parser.line r.grammar fuel : Parser (Recording r.tokens.stream) (Option Tree)) :=
    Parser.parallel_line (fun _ _ _ => trivial) (fun _ => trivial) r.grammar (Nat.le_refl fuel)
      (Nat.lt_irrefl fuel)
  obtain ⟨ts, e?, hrequests, -⟩ := hparallel.asks _ step hstep
  have hstart : r.recorded.tokens.stream.log = [] := rfl
  rw [hstart, List.nil_append] at hrequests
  rw [hrequests] at hlog
  have hexchanges := step.tokens.stream.exchanges
  rw [hrequests] at hexchanges
  refine ⟨_, hlog, ?_, ?_⟩
  · intro us e m hm
    refine hexchanges.prefix_of_notMem_dropLast hm fun hmem => ?_
    have htokens : .error e ∈ ts.map (Except.ok : Token → Item) := by
      cases e? with
      | none =>
          rw [Option.toList_none, List.map_nil, List.append_nil] at hmem
          exact List.dropLast_subset _ hmem
      | some e' =>
          rw [Option.toList_some, List.map_singleton, List.dropLast_concat] at hmem
          exact hmem
    obtain ⟨t, -, ht⟩ := List.mem_map.1 htokens
    cases ht
  · intro hs hheld us i m hi hm
    obtain ⟨-, ts', last, hts', hlog', -, -⟩ := exists_exchanged hs hheld h
    have hsame : ts.map .ok ++ e?.toList.map .error = ts'.map .ok ++ [last] := by
      rw [hlog, Option.some.injEq] at hlog'
      exact (List.map_inj_right fun _ _ => Exchange.read.inj).1 hlog'
    refine hexchanges.prefix_of_notMem_dropLast hm fun hmem => ?_
    rw [hsame, List.dropLast_concat] at hmem
    obtain ⟨t, ht, rfl⟩ := List.mem_map.1 hmem
    simp [Item.closes, Token.isStop, hts' t ht] at hi

end LineReader

end Calculator
