/-
What a stream has been asked so far.

Two requests move a stream on, one for a token and one to start over on a text.  An
`Exchange` is such a request with its answer, and `Exchanges s es s'` says that the
stream, asked for them one after the other, gives these answers and comes to `s'`.  Which
token was the last to be delivered can be read off the exchanges alone (`latest`): a
reset forgets it and an error leaves it as it is.

A stream `Remembers` if its last token is always that one.  This is what is asked of a
stream that stands behind a push-back.  A parser gets along with less: that the last
token is the one just delivered (`TellsLast`).  Scanners and scripts remember in every
state.
-/
import Calculator.Proofs.Token.Delivery
import Calculator.Token.Scanner

namespace Calculator

namespace TokenStream

/-- A request that moves a stream on, and its answer. -/
inductive Exchange where
  /-- It was to start over on a text. -/
  | reset (text : String)
  /-- It was asked for a token and gave the item. -/
  | read (i : Item)

/-- The requests for some items, one after the other. -/
def reads (is : List Item) : List Exchange :=
  is.map .read

theorem reads_concat (is : List Item) (i : Item) : reads (is ++ [i]) = reads is ++ [.read i] :=
  List.map_append

/-- The token delivered last, after one more exchange. -/
def Exchange.latest (last? : Option Token) : Exchange → Option Token
  | .reset _ => none
  | .read (.ok t) => some t
  | .read (.error _) => last?

/-- The token delivered last since the last reset, after some exchanges; without any of them it is
the one given. -/
def latest (last? : Option Token) (es : List Exchange) : Option Token :=
  es.foldl Exchange.latest last?

private theorem latest_append (last? : Option Token) (es es' : List Exchange) :
    latest last? (es ++ es') = latest (latest last? es) es' :=
  List.foldl_append

variable {σ : Type} [TokenStream σ]

/-- Asked for the exchanges one after the other, the first stream answers as they say and becomes
the second. -/
inductive Exchanges : σ → List Exchange → σ → Prop
  | nil (s : σ) : Exchanges s [] s
  | reset {s s' : σ} {es : List Exchange} (text : String)
      (hrest : Exchanges (reset text s) es s') : Exchanges s (.reset text :: es) s'
  | read {s s' s'' : σ} {i : Item} {es : List Exchange} (hnext : next s = (i, s'))
      (hrest : Exchanges s' es s'') : Exchanges s (.read i :: es) s''

theorem Exchanges.append {s s' s'' : σ} {es es' : List Exchange} (h : Exchanges s es s')
    (h' : Exchanges s' es' s'') : Exchanges s (es ++ es') s'' := by
  induction h with
  | nil => exact h'
  | reset text _ ih => exact .reset text (ih h')
  | read hnext _ ih => exact .read hnext (ih h')

/-- What is delivered is answered. -/
theorem exchanges_of_delivers {s m : σ} {is : List Item} (h : Delivers s is m) :
    Exchanges s (reads is) m := by
  induction h with
  | nil => exact .nil _
  | token hnext _ _ ih => exact .read hnext ih
  | error hnext _ ih => exact .read hnext ih

/-! ### Streams that know their last token -/

/-- The last token of the stream is always the one delivered last since the last reset. -/
def Remembers (s : σ) : Prop :=
  ∀ es s', Exchanges s es s' → last? s' = latest (last? s) es

/-- When the stream has delivered a token, this is its last token. -/
def TellsLast (s : σ) : Prop :=
  ∀ es s' t s'', Exchanges s es s' → next s' = (.ok t, s'') → last? s'' = some t

/-- A stream that remembers goes on to remember. -/
theorem Remembers.of_exchanges {s s' : σ} {es : List Exchange} (h : Remembers s)
    (hes : Exchanges s es s') : Remembers s' := by
  intro es' s'' hes'
  have hall : last? s'' = latest (last? s) (es ++ es') := h _ _ (hes.append hes')
  rw [hall, latest_append, ← h _ _ hes]

theorem TellsLast.of_exchanges {s s' : σ} {es : List Exchange} (h : TellsLast s)
    (hes : Exchanges s es s') : TellsLast s' :=
  fun es' _ t _ hes' hnext => h (es ++ es') _ t _ (hes.append hes') hnext

/-- A stream that tells its last token delivers what it answers. -/
theorem TellsLast.delivers {s m : σ} {is : List Item} (hs : TellsLast s)
    (h : Exchanges s (reads is) m) : Delivers s is m := by
  induction is generalizing s with
  | nil =>
      cases h
      exact .nil _
  | cons i is ih =>
      cases h with
      | read hnext hrest =>
          have hrest' := ih (hs.of_exchanges (.read hnext (.nil _))) hrest
          cases i with
          | ok t => exact .token hnext (hs [] _ t _ (.nil _) hnext) hrest'
          | error e => exact .error hnext hrest'

/-- **A stream remembers if each request does its part.**  A token that is delivered becomes the last
one, an error leaves the last token alone, and a reset forgets it. -/
theorem remembers_of_requests
    (hok : ∀ (s : σ) t s', next s = (.ok t, s') → last? s' = some t)
    (herror : ∀ (s : σ) e s', next s = (.error e, s') → last? s' = last? s)
    (hreset : ∀ text (s : σ), last? (reset text s) = none) (s : σ) : Remembers s := by
  intro es s' h
  induction h with
  | nil => rfl
  | reset text _ ih =>
      rw [ih, hreset]
      rfl
  | @read s s' _ i _ hnext _ ih =>
      cases i with
      | ok t =>
          rw [ih, hok s t s' hnext]
          rfl
      | error e =>
          rw [ih, herror s e s' hnext]
          rfl

theorem Remembers.tellsLast {s : σ} (h : Remembers s) : TellsLast s := by
  intro es s' t s'' hes hnext
  have hlast : last? s'' = latest (last? s') [.read (.ok t)] :=
    h.of_exchanges hes _ _ (.read hnext (.nil _))
  rw [hlast]
  rfl

end TokenStream

/-! ### Scanners and scripts -/

/-- **A scanner remembers its last token.** -/
theorem Scanner.remembers (s : Scanner) : TokenStream.Remembers s := by
  refine TokenStream.remembers_of_requests ?_ ?_ (fun _ _ => rfl) s
  · intro s t s' h
    have hnext : s.next = (.ok t, s') := h
    unfold next at hnext
    split at hnext
    · cases hnext
    · simp only at hnext
      split at hnext
      · cases hnext
      · cases hnext
        rfl
  · intro s e s' h
    have hnext : s.next = (.error e, s') := h
    unfold next at hnext
    split at hnext
    · cases hnext
      rfl
    · simp only at hnext
      split at hnext
      · cases hnext
        rfl
      · cases hnext

/-- **A script remembers its last token.** -/
theorem Script.remembers (s : Script) : TokenStream.Remembers s := by
  refine TokenStream.remembers_of_requests ?_ ?_ (fun _ _ => rfl) s
  · intro s t s' h
    have hnext : s.next = (.ok t, s') := h
    unfold next at hnext
    split at hnext
    · cases hnext
    · cases hnext
    · cases hnext
      rfl
  · intro s e s' h
    have hnext : s.next = (.error e, s') := h
    unfold next at hnext
    split at hnext
    · cases hnext
      rfl
    · cases hnext
      rfl
    · cases hnext

end Calculator
