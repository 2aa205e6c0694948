/-
A parser may put back what it has just been given, and nothing else.

A push-back refuses a token while it holds one, and when the stream within has
delivered none.  The parser of a line never runs into that, and when it stops, in
whatever way, no token is held.  To say so, and to say what the stream within is
asked on the way, it is read off a `Recording`: a stream that answers as the source it
was started from, and carries along every exchange since then.

Between two requests of the parser there are three kinds of state.  `Ready` to read on:
none of the tokens so far was the end, and one may be held, the last.  `Took`: a token
has just been delivered and can be put back.  `Done`: nothing is held, and the last
answer was the end, or an error that is passed on, or a token that is refused.  Every
part of an expression goes from `Ready` to `Ready` and is `Done` where it fails
(`conduct_ready`), and behind a line the stream is done in either case.
-/
import Calculator.Proofs.Parser.Parallel
import Calculator.Proofs.Parser.Reading
import Calculator.Proofs.Token.Exchange

namespace Calculator

open TokenStream (Exchange Exchanges TellsLast reads)

/-! ### Recordings -/

/-- A stream that a source has become, and the exchanges with the source that lead to it. -/
structure Recording {σ : Type} [TokenStream σ] (source : σ) where
  stream : σ
  log : List Exchange
  exchanges : Exchanges source log stream

namespace Recording

variable {σ : Type} [TokenStream σ] {source : σ}

/-- A recording of nothing. -/
def start (source : σ) : Recording source where
  stream := source
  log := []
  exchanges := .nil source

/-- A recording answers as its stream does, and takes note of it. -/
instance : TokenStream (Recording source) where
  next r :=
    ((TokenStream.next r.stream).1,
      { stream := (TokenStream.next r.stream).2
        log := r.log ++ [.read (TokenStream.next r.stream).1]
        exchanges := r.exchanges.append (.read rfl (.nil _)) })
  last? r := TokenStream.last? r.stream
  reset text r :=
    { stream := TokenStream.reset text r.stream
      log := r.log ++ [.reset text]
      exchanges := r.exchanges.append (.reset text (.nil _)) }

theorem mirrors_stream (source : σ) : Mirrors (stream : Recording source → σ) :=
  ⟨fun _ => rfl, fun _ => rfl⟩

/-- A recording tells its last token if its source does. -/
theorem last?_of_next (hs : TellsLast source) {r r' : Recording source} {t : Token}
    (h : TokenStream.next r = (.ok t, r')) : TokenStream.last? r' = some t := by
  have hok : (TokenStream.next r.stream).1 = .ok t := congrArg Prod.fst h
  have hr' : (TokenStream.next r).2 = r' := congrArg Prod.snd h
  rw [← hr']
  exact hs _ _ t _ r.exchanges (Prod.ext hok rfl)

/-- The answer is noted behind all others. -/
theorem log_of_next {r r' : Recording source} {i : Item} (h : TokenStream.next r = (i, r')) :
    r'.log = r.log ++ [.read i] := by
  have hi : (TokenStream.next r.stream).1 = i := congrArg Prod.fst h
  have hr' : (TokenStream.next r).2 = r' := congrArg Prod.snd h
  rw [← hr', ← hi]
  rfl

end Recording

/-- The failure of the tokens that is passed on, if it is one. -/
def ReadError.tokenError? : ReadError → Option TokenError
  | .token e => some e
  | _ => none

private theorem ReadError.tokenError?_eq_some_iff {e : ReadError} {e' : TokenError} :
    e.tokenError? = some e' ↔ e = .token e' := by
  cases e <;> simp [tokenError?]

namespace PushBack

variable {σ : Type} [TokenStream σ] {source : σ} {p : PushBack (Recording source)}

/-! ### What a parser finds and leaves -/

/-- There is more to read: none of the tokens so far was the end, unless that is held, and a token
that is held is the last one. -/
structure Ready (p : PushBack (Recording source)) : Prop where
  log : ∃ ts : List Token, (∀ t ∈ ts, t.kind ≠ .stop) ∧
    p.stream.log = reads ((ts ++ p.held.toList).map .ok)
  held : ∀ t, p.held = some t → TokenStream.last? p.stream = some t

/-- The token has just been delivered, and none before it was the end. -/
structure Took (p : PushBack (Recording source)) (t : Token) : Prop extends p.JustRead t where
  log : ∃ ts : List Token, (∀ u ∈ ts, u.kind ≠ .stop) ∧
    p.stream.log = reads ((ts ++ [t]).map .ok)

/-- Nothing is held and only the last answer may have been the end or an error, which is then the
error that is given. -/
structure Done (p : PushBack (Recording source)) (e? : Option TokenError) : Prop where
  held : p.held = none
  log : ∃ (ts : List Token) (last : Item), (∀ t ∈ ts, t.kind ≠ .stop) ∧
    p.stream.log = reads (ts.map .ok ++ [last]) ∧ ∀ e, last = .error e ↔ e? = some e

/-- A recording that is wrapped is ready. -/
theorem ready_start (source : σ) : (wrap (Recording.start source)).Ready :=
  ⟨⟨[], by simp, rfl⟩, fun _ ht => by cases ht⟩

/-- Behind a token that is not the end one can read on. -/
theorem Took.ready {t : Token} (h : p.Took t) (ht : t.kind ≠ .stop) : p.Ready := by
  obtain ⟨ts, hts, hlog⟩ := h.log
  have hall : ∀ u ∈ ts ++ [t], u.kind ≠ .stop :=
    List.forall_mem_append.2 ⟨hts, List.forall_mem_singleton.2 ht⟩
  refine ⟨⟨ts ++ [t], hall, ?_⟩, ?_⟩
  · rw [hlog, h.held, Option.toList_none, List.append_nil]
  · intro u hu
    rw [h.held] at hu
    cases hu

/-- Behind any token one can stop. -/
theorem Took.done {t : Token} (h : p.Took t) : p.Done none := by
  obtain ⟨ts, hts, hlog⟩ := h.log
  refine ⟨h.held, ts, .ok t, hts, ?_, by simp⟩
  rw [hlog, List.map_append]
  rfl

/-- **The token just delivered can be put back**, whether it is the end or not. -/
theorem Took.putBack {t : Token} (h : p.Took t) :
    p.putBack = .ok { p with held := some t } ∧ Ready { p with held := some t } := by
  obtain ⟨ts, hts, hlog⟩ := h.log
  refine ⟨(h.toJustRead.putBack (.nil p)).1, ⟨ts, hts, hlog⟩, ?_⟩
  intro u hu
  cases hu
  exact h.last

/-- A request gives a token or an error, and the one that was held comes first. -/
theorem Ready.next (hs : TellsLast source) (h : p.Ready) {i : Item}
    {p' : PushBack (Recording source)} (hnext : p.next = (i, p')) :
    (∃ t, i = .ok t ∧ p'.Took t) ∨ ∃ e, i = .error e ∧ p'.Done (some e) := by
  obtain ⟨ts, hts, hlog⟩ := h.log
  unfold PushBack.next at hnext
  split at hnext
  · rename_i t ht
    cases hnext
    rw [ht, Option.toList_some] at hlog
    exact Or.inl ⟨t, rfl, ⟨rfl, h.held t ht⟩, ts, hts, hlog⟩
  · rename_i hheld
    rw [hheld, Option.toList_none, List.append_nil] at hlog
    obtain ⟨hi, rfl⟩ := Prod.mk.inj hnext
    have hstream : TokenStream.next p.stream = (i, (TokenStream.next p.stream).2) :=
      Prod.ext hi rfl
    have hlog' := Recording.log_of_next hstream
    rw [hlog, ← TokenStream.reads_concat] at hlog'
    cases i with
    | ok t =>
        refine Or.inl ⟨t, rfl, ⟨hheld, Recording.last?_of_next hs hstream⟩, ts, hts, ?_⟩
        rw [hlog', List.map_append]
        rfl
    | error e =>
        refine Or.inr ⟨e, rfl, hheld, ts, .error e, hts, hlog', ?_⟩
        intro e'
        rw [Except.error.injEq, Option.some.injEq]

end PushBack

namespace Parser

open PushBack (Ready Took Done)

variable {σ α β : Type} [TokenStream σ] {source : σ} {p : PushBack (Recording source)}

/-- The stream is done, and it was the last to fail if the error is one of its own. -/
def DoneWith (e : ReadError) (p : PushBack (Recording source)) : Prop :=
  p.Done e.tokenError?

private theorem keeps_putBack_of_took {t : Token} (h : p.Took t) :
    (putBack : Parser (Recording source) Unit).Keeps DoneWith p fun _ p' => Ready p' := by
  obtain ⟨hput, hready⟩ := h.putBack
  exact keeps_putBack hput hready

/-- One may stop with any error but one of the stream where a token has just been taken. -/
theorem doneWith_of_took {t : Token} {e : ReadError} (h : p.Took t) (he : ∀ e', e ≠ .token e') :
    DoneWith e p := by
  have hnone : e.tokenError? = none := by
    rw [Option.eq_none_iff_forall_ne_some]
    intro e' he'
    exact he e' (ReadError.tokenError?_eq_some_iff.1 he')
  rw [DoneWith, hnone]
  exact h.done

/-! ### The parsers of a line -/

section Line

variable (hs : TellsLast source)

include hs

private theorem keeps_token_of_ready (h : p.Ready) :
    (token : Parser (Recording source) Token).Keeps DoneWith p fun t p' => Took p' t := by
  refine keeps_token ?_ ?_
  · intro t p' hnext
    rcases h.next hs hnext with ⟨u, hu, htook⟩ | ⟨e, he, -⟩
    · cases hu
      exact htook
    · cases he
  · intro e p' hnext
    rcases h.next hs hnext with ⟨u, hu, -⟩ | ⟨e', he, hdone⟩
    · cases hu
    · cases he
      exact hdone

private theorem keeps_operator_of_ready (g : Grammar) (level : Nat) (h : p.Ready) :
    (operator g level).Keeps DoneWith p fun _ p' => Ready p' := by
  refine keeps_bind (keeps_token_of_ready hs h) fun t p' htook => ?_
  split
  · rename_i op hop
    have hkind : t.kind = .symbol := (Grammar.tokenOp?_eq_some_iff.1 hop).1
    exact keeps_pure (htook.ready (by simp [hkind]))
  · exact keeps_bind (keeps_putBack_of_took htook) fun _ p'' hready => keeps_pure hready

/-- **Wherever one can read on, a part of an expression leaves it so.** -/
theorem conduct_ready (g : Grammar) :
    Conduct g DoneWith Ready (fun t (p : PushBack (Recording source)) => Took p t)
      (fun _ => Ready) where
  token := keeps_token_of_ready hs
  opens := by
    intro t p htook hkind
    exact htook.ready (by rcases hkind with h | h <;> simp [h])
  closes := by
    intro t p htook hkind
    exact htook.ready (by rcases hkind with h | h | h <;> simp [h])
  loosens := fun h _ => h
  resumes := fun h => h
  operator := by
    intro level p h
    refine (keeps_operator_of_ready hs g level h).mono ?_
    rintro (_ | op) p' hready <;> exact hready
  refuses := doneWith_of_took

private theorem keeps_definition (g : Grammar) (fuel : Nat) (h : p.Ready) :
    (definition g fuel).Keeps DoneWith p fun _ p' => Ready p' := by
  refine keeps_bind (keeps_token_of_ready hs h) fun name p hname => ?_
  split
  · rename_i hkind
    have hready : p.Ready := hname.ready (by simp [hkind])
    refine keeps_bind (keeps_token_of_ready hs hready) fun sign p hsign => ?_
    split
    · rename_i hequals
      have hready : p.Ready := hsign.ready (by simp [hequals])
      exact keeps_bind ((conduct_ready hs g).expression hready) fun _ p h => keeps_pure h
    · exact keeps_fail (doneWith_of_took hsign (by simp))
  · exact keeps_fail (doneWith_of_took hname (by simp))

private theorem keeps_finish (tree : Tree) (h : p.Ready) :
    (finish tree).Keeps DoneWith p fun _ p' => Done p' none := by
  refine keeps_bind (keeps_token_of_ready hs h) fun t p htook => ?_
  split
  · exact keeps_emit_bind (keeps_pure htook.done)
  · exact keeps_fail (doneWith_of_took htook (by simp))

/-- **Whether a line succeeds or fails, the stream is done behind it.** -/
theorem keeps_line (g : Grammar) (fuel : Nat) (h : p.Ready) :
    (line g fuel).Keeps DoneWith p fun _ p' => Done p' none := by
  refine keeps_bind (keeps_token_of_ready hs h) fun t p htook => ?_
  cases hkind : t.kind with
  | stop => exact keeps_pure htook.done
  | keyword =>
      have hready : p.Ready := htook.ready (by simp [hkind])
      exact keeps_bind (keeps_definition hs g fuel hready) fun tree p h => keeps_finish hs tree h
  | number | name | symbol | leftParen | rightParen | equals =>
      refine keeps_bind (keeps_putBack_of_took htook) fun _ p h => ?_
      exact keeps_bind ((conduct_ready hs g).expression h) fun tree p h => keeps_finish hs tree h

/-- Behind a line nothing is held, and it has failed with an error of the stream exactly if that was
the last answer of the stream. -/
theorem exists_done_of_line {g : Grammar} {fuel : Nat}
    {step : Step (Recording source) (Option Tree)} (h : p.Ready) (hstep : line g fuel p = some step) :
    ∃ e?, step.tokens.Done e? ∧ ∀ e, step.answer = .error (.token e) ↔ e? = some e := by
  have hkeeps := keeps_line hs g fuel h step hstep
  cases hanswer : step.answer with
  | ok tree? =>
      rw [hanswer] at hkeeps
      exact ⟨none, hkeeps, by simp⟩
  | error e =>
      rw [hanswer] at hkeeps
      refine ⟨e.tokenError?, hkeeps, fun e' => ?_⟩
      rw [ReadError.tokenError?_eq_some_iff, Except.error.injEq]

end Line

end Parser

end Calculator
