/-
How far a line takes its stream.

`Delivers` says what lies ahead of a stream, and that is all one needs to know of the
stream a line leaves behind, except when it is asked which token was the last to be
taken.  The states of a stream need not tell: it may be in the same state at two
places, as it is when an error comes again and again.

So the requests are counted.  A `Place` in a stream is the number of requests before
it, and as such a stream of its own, which answers as the other one does there.  A line
is read off the places as it is read off the stream (`Parser.mirrored_line`), and the
places behind it say which items it took (`yields_at`).
-/
import Calculator.Proofs.Parser.Acceptance
import Calculator.Proofs.Parser.Parallel
import Calculator.Proofs.Parser.Viable

namespace Calculator

/-- So many requests behind the beginning of a stream. -/
structure Place {σ : Type} (source : σ) where
  index : Nat

section Places

variable {σ τ : Type} [TokenStream σ] [TokenStream τ]

/-- A stream that answers alike delivers the same. -/
theorem Delivers.map {f : σ → τ} (hf : Mirrors f) {s m : σ} {is : List Item}
    (h : Delivers s is m) : Delivers (f s) is (f m) := by
  induction h with
  | nil => exact .nil _
  | token hnext hlast _ ih =>
      exact .token (by rw [hf.next, hnext]) ((hf.last? _).trans hlast) ih
  | error hnext _ ih => exact .error (by rw [hf.next, hnext]) ih

namespace Place

variable {source : σ}

/-- The stream behind some requests. -/
def behind (source : σ) : Nat → σ
  | 0 => source
  | n + 1 => (TokenStream.next (behind source n)).2

/-- The stream at a place. -/
def stream (p : Place source) : σ :=
  behind source p.index

/-- A place answers as its stream does, and the next place lies behind the answer. -/
instance : TokenStream (Place source) where
  next p := ((TokenStream.next p.stream).1, ⟨p.index + 1⟩)
  last? p := TokenStream.last? p.stream
  reset _ p := p

theorem mirrors_stream (source : σ) : Mirrors (stream : Place source → σ) :=
  ⟨fun _ => rfl, fun _ => rfl⟩

/-- What lies ahead of a stream lies ahead of its place, and the requests are counted. -/
theorem delivers_of_behind {n : Nat} {m : σ} {is : List Item}
    (h : Delivers (behind source n) is m) :
    Delivers (Place.mk n : Place source) is ⟨n + is.length⟩ := by
  induction is generalizing n with
  | nil => exact .nil _
  | cons i is ih =>
      have hlen : n + (i :: is).length = n + 1 + is.length := by
        rw [List.length_cons]
        omega
      rw [hlen]
      cases h with
      | @token _ s' _ t _ hnext hlast hrest =>
          have hs' : s' = behind source (n + 1) := by rw [behind, hnext]
          rw [hs'] at hlast hrest
          have hplace : TokenStream.next (Place.mk n : Place source) = (.ok t, ⟨n + 1⟩) := by
            show ((TokenStream.next (behind source n)).1, _) = _
            rw [hnext]
          exact .token hplace hlast (ih hrest)
      | @error _ s' _ e _ hnext hrest =>
          have hs' : s' = behind source (n + 1) := by rw [behind, hnext]
          rw [hs'] at hrest
          have hplace : TokenStream.next (Place.mk n : Place source) = (.error e, ⟨n + 1⟩) := by
            show ((TokenStream.next (behind source n)).1, _) = _
            rw [hnext]
          exact .error hplace (ih hrest)

/-- Between two places lie as many items as there are requests. -/
theorem index_of_delivers {p q : Place source} {is : List Item} (h : Delivers p is q) :
    q.index = p.index + is.length := by
  have hnext : ∀ {p q : Place source} {i : Item}, TokenStream.next p = (i, q) →
      q.index = p.index + 1 := by
    intro p q i hpq
    have hq : (TokenStream.next p).2 = q := congrArg Prod.snd hpq
    rw [← hq]
    rfl
  induction h with
  | nil => rfl
  | token hpq _ _ ih =>
      rw [ih, hnext hpq, List.length_cons]
      omega
  | error hpq _ ih =>
      rw [ih, hnext hpq, List.length_cons]
      omega

end Place

end Places

/-! ### What a line takes -/

namespace Grammar

variable {g : Grammar}

/-- The items are answered so, and the rest of them lies behind the line. -/
def Settles (g : Grammar) (is : List Item) : Except ReadError (Option Tree) → List Item → Prop
  | .ok tree?, rest => g.ReadsLine is tree? rest
  | .error e, rest => g.follow .line is = .wrong e rest

private theorem Settles.exists_front {is rest : List Item} {answer : Except ReadError (Option Tree)}
    (h : g.Settles is answer rest) : ∃ front, is = front ++ rest := by
  cases answer with
  | error e =>
      obtain ⟨ts, last, -, hitems, -, -⟩ := exists_leads_of_wrong h
      exact ⟨ts.map .ok ++ [last], by simpa using hitems⟩
  | ok tree? =>
      cases tree? with
      | some tree =>
          obtain ⟨ts, stop, hitems, -, -, -⟩ := ReadsLine.sentence h
          exact ⟨ts.map .ok ++ [.ok stop], by simpa using hitems⟩
      | none =>
          cases h with
          | @blank stop _ _ => exact ⟨[.ok stop], rfl⟩

end Grammar

/-- What the parser of a line answers is settled by its items, and it holds no token. -/
theorem Parser.LineAnswers.settles {σ : Type} [TokenStream σ] {g : Grammar}
    {is : List Item} {s m : PushBack σ} {answer : Except ReadError (Option Tree)}
    (h : Parser.LineAnswers g is m answer s) :
    s.held = none ∧ ∃ rest, Delivers s rest m ∧ g.Settles is answer rest := by
  cases answer with
  | error e =>
      obtain ⟨hheld, rest, hd, hwrong⟩ := h
      exact ⟨hheld, rest, hd, hwrong 0⟩
  | ok tree? =>
      obtain ⟨hheld, rest, hr, hd⟩ := h
      exact ⟨hheld, rest, hd, hr⟩

namespace LineReader

variable {σ : Type} [TokenStream σ]

/-- **A line takes items off the front of its stream**, those that settle its answer, and the stream
is left right behind them, with no token put back. -/
theorem yields_at (r : LineReader σ) {source m : σ} {is : List Item}
    (hr : r.tokens = .wrap source) (hd : Delivers source is m) (hc : Closed is) :
    ∃ out front rest source', r.Yields out ∧ is = front ++ rest ∧
      out.reader = ⟨r.grammar, .wrap source'⟩ ∧ Delivers source front source' ∧
      Delivers source' rest m ∧ r.grammar.Settles is out.answer rest := by
  -- The line is read off the places, where what lies ahead tells how far it has come.
  have hplaces : Delivers (Place.mk 0 : Place source) is ⟨0 + is.length⟩ :=
    Place.delivers_of_behind hd
  obtain ⟨step, hstep, hanswer⟩ :=
    Parser.gives_line (g := r.grammar) (PushBack.delivers_wrap hplaces) hc (Nat.le_refl _)
  obtain ⟨hheld, rest, hrest, hsettles⟩ := hanswer.settles
  obtain ⟨front, rfl⟩ := hsettles.exists_front
  obtain ⟨p, hp⟩ : ∃ p, step.tokens = .wrap p := ⟨_, PushBack.eq_wrap_of_held hheld⟩
  rw [hp] at hrest
  obtain ⟨q, hq, hrest'⟩ := PushBack.exists_delivers_of_wrap hrest
  cases hq
  obtain ⟨mid, hfront, -⟩ := hplaces.exists_of_append
  have hmid : mid = p := by
    have hindex := Place.index_of_delivers hrest'
    have hindex' := Place.index_of_delivers hfront
    rw [List.length_append] at hindex
    obtain ⟨i⟩ := mid
    obtain ⟨j⟩ := p
    simp only at hindex hindex'
    rw [show i = j by omega]
  rw [hmid] at hfront
  -- What was read off the places is read off the stream.
  have hf : Mirrors (Place.stream : Place source → σ) := Place.mirrors_stream source
  have hline : Parser.line r.grammar (r.grammar.budget (front ++ rest).length) r.tokens
      = some (step.map Place.stream) := by
    rw [hr, ← Option.map_some, ← hstep]
    exact Parser.mirrored_line hf r.grammar _ (.wrap ⟨0⟩)
  have hread : r.readLine? (r.grammar.budget (front ++ rest).length)
      = some ⟨step.answer, ⟨r.grammar, .wrap p.stream⟩, step.events⟩ := by
    rw [readLine?, hline, Option.map_some, Step.map, hp]
    rfl
  have hfront' : Delivers source front p.stream := hfront.map hf
  obtain ⟨source', hsource, hbehind⟩ := hd.exists_of_append
  rw [hsource.unique hfront'] at hbehind
  exact ⟨_, front, rest, p.stream, yields_of_readLine? hread, rfl, rfl, hfront', hbehind, hsettles⟩

end LineReader

end Calculator
