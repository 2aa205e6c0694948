/-
A push-back neither loses nor invents tokens.

Five things can be asked of a push-back.  A `transcript` lists the answers to some
requests, and it tells by itself which tokens came again: a token is `waiting` behind
a successful put-back until it is asked for or a reset drops it.  Leave out the answers
that came again and those that the stream within had no part in, and `fresh` exchanges
are left.  They are just what the stream within does for the same resets and reads
(`exchanges_transcript`).

What comes again, and what can be put back, is the last token of the stream within.  So
one thing has to be kept through all requests, that a token which is held is this one
(`Coherent`).

A push-back over a push-back is as good as one, if it is asked from outside only: the
inner one never holds a token (`serve_doubled`).
-/
import Calculator.Proofs.Token.Exchange

namespace Calculator

namespace PushBack

open TokenStream (Exchanges Remembers latest)

/-! ### Requests and answers -/

/-- What a push-back can be asked. -/
inductive Request where
  /-- To start over on a text. -/
  | reset (text : String)
  /-- For the next token. -/
  | next
  /-- To put the last token back. -/
  | putBack
  /-- For the last token. -/
  | last
  /-- Whether it holds a token. -/
  | isHolding

/-- A request and what it was answered with. -/
inductive Answer where
  | reset (text : String)
  | next (i : Item)
  | putBack (done : Except TokenError Unit)
  | last (i : Item)
  | isHolding (b : Bool)

/-- A token waits to come again, after one more answer. -/
def Answer.waiting (waits : Bool) : Answer → Bool
  | .reset _ | .next _ => false
  | .putBack (.ok _) => true
  | .putBack (.error _) | .last _ | .isHolding _ => waits

/-- The exchange with the stream within that an answer comes from: a token that waited comes from
none. -/
def Answer.fresh? (waits : Bool) : Answer → Option TokenStream.Exchange
  | .reset text => some (.reset text)
  | .next i => if waits then none else some (.read i)
  | .putBack _ | .last _ | .isHolding _ => none

/-- A token waits to come again, after some answers. -/
def waiting (waits : Bool) (answers : List Answer) : Bool :=
  answers.foldl Answer.waiting waits

/-- The exchanges with the stream within that some answers come from. -/
def fresh : Bool → List Answer → List TokenStream.Exchange
  | _, [] => []
  | waits, answer :: rest => (answer.fresh? waits).toList ++ fresh (answer.waiting waits) rest

variable {σ : Type} [TokenStream σ]

/-- The answer to a request, and the push-back behind it. -/
def serve (p : PushBack σ) : Request → Answer × PushBack σ
  | .reset text => (.reset text, p.reset text)
  | .next => (.next p.next.1, p.next.2)
  | .putBack =>
    match p.putBack with
    | .ok p' => (.putBack (.ok ()), p')
    | .error e => (.putBack (.error e), p)
  | .last => (.last (TokenStream.last p), p)
  | .isHolding => (.isHolding p.isHolding, p)

/-- The answers to some requests, one after the other. -/
def transcript (p : PushBack σ) : List Request → List Answer
  | [] => []
  | request :: rest => (p.serve request).1 :: (p.serve request).2.transcript rest

/-- The push-back behind some requests. -/
def final (p : PushBack σ) : List Request → PushBack σ
  | [] => p
  | request :: rest => (p.serve request).2.final rest

/-! ### What can be put back -/

variable {p : PushBack σ}

/-- A token can be put back exactly if none is held and the stream within has a last one. -/
theorem putBack_eq (p : PushBack σ) :
    (p.held = none ∧ ∃ t, TokenStream.last? p.stream = some t ∧
        p.putBack = .ok { p with held := some t }) ∨
      ((p.held ≠ none ∨ TokenStream.last? p.stream = none) ∧
        p.putBack = .error .cannotPutBack) := by
  unfold putBack
  split
  · rename_i t hheld hlast
    exact Or.inl ⟨hheld, t, hlast, rfl⟩
  · rename_i hnot
    refine Or.inr ⟨?_, rfl⟩
    cases hheld : p.held with
    | some t => exact Or.inl (by simp)
    | none =>
        refine Or.inr ?_
        rw [Option.eq_none_iff_forall_ne_some]
        intro t hlast
        exact hnot t hheld hlast

/-! ### One request -/

/-- **An answer that is fresh is one of the stream within**, and any other leaves that stream alone. -/
theorem exchanges_serve (p : PushBack σ) (request : Request) :
    Exchanges p.stream ((p.serve request).1.fresh? p.isHolding).toList
      (p.serve request).2.stream := by
  cases request with
  | reset text => exact .reset text (.nil _)
  | next =>
      cases hheld : p.held with
      | some t =>
          simp only [serve, next, hheld, Answer.fresh?, isHolding, Option.isSome_some, if_true]
          exact .nil _
      | none =>
          simp only [serve, next, hheld, Answer.fresh?, isHolding, Option.isSome_none]
          exact .read rfl (.nil _)
  | putBack =>
      rcases p.putBack_eq with ⟨-, t, -, hput⟩ | ⟨-, hput⟩ <;> simp only [serve, hput] <;>
        exact .nil _
  | last => exact .nil _
  | isHolding => exact .nil _

/-- A token is held exactly if the answers say that one waits. -/
theorem isHolding_serve (p : PushBack σ) (request : Request) :
    (p.serve request).2.isHolding = (p.serve request).1.waiting p.isHolding := by
  cases request with
  | reset text => rfl
  | next =>
      have hheld : p.next.2.held = none := p.held_next
      simp [serve, isHolding, hheld, Answer.waiting]
  | putBack =>
      rcases p.putBack_eq with ⟨-, t, -, hput⟩ | ⟨-, hput⟩
      · simp [serve, hput, isHolding, Answer.waiting]
      · simp [serve, hput, Answer.waiting]
  | last => rfl
  | isHolding => rfl

/-- The token that is held is the last one of the stream within, which remembers it. -/
structure Coherent (p : PushBack σ) : Prop where
  remembers : Remembers p.stream
  held : ∀ t, p.held = some t → TokenStream.last? p.stream = some t

private theorem coherent_wrap {s : σ} (hs : Remembers s) : (wrap s).Coherent :=
  ⟨hs, fun _ ht => by cases ht⟩

theorem Coherent.serve (h : p.Coherent) (request : Request) : (p.serve request).2.Coherent := by
  refine ⟨h.remembers.of_exchanges (p.exchanges_serve request), ?_⟩
  intro t ht
  cases request with
  | reset text => cases ht
  | next =>
      have hheld : p.next.2.held = none := p.held_next
      have hsome : p.next.2.held = some t := ht
      rw [hheld] at hsome
      cases hsome
  | putBack =>
      rcases p.putBack_eq with ⟨-, u, hlast, hput⟩ | ⟨-, hput⟩
      · simp only [PushBack.serve, hput] at ht ⊢
        cases ht
        exact hlast
      · simp only [PushBack.serve, hput] at ht ⊢
        exact h.held t ht
  | last => exact h.held t ht
  | isHolding => exact h.held t ht

/-! ### Any number of requests -/

/-- **The fresh answers are what the stream within answers** to the same resets and reads. -/
theorem exchanges_transcript (p : PushBack σ) (requests : List Request) :
    Exchanges p.stream (fresh p.isHolding (p.transcript requests)) (p.final requests).stream := by
  induction requests generalizing p with
  | nil => exact .nil _
  | cons request rest ih =>
      rw [transcript, final, fresh, ← p.isHolding_serve]
      exact (p.exchanges_serve request).append (ih _)

private theorem isHolding_final (p : PushBack σ) (requests : List Request) :
    (p.final requests).isHolding = waiting p.isHolding (p.transcript requests) := by
  induction requests generalizing p with
  | nil => rfl
  | cons request rest ih =>
      rw [transcript, final, waiting, List.foldl_cons, ← p.isHolding_serve]
      exact ih _

theorem Coherent.final (h : p.Coherent) (requests : List Request) :
    (p.final requests).Coherent := by
  induction requests generalizing p with
  | nil => exact h
  | cons request rest ih => exact ih (h.serve request)

/-! ### A push-back over a push-back -/

/-- The push-back with another one within, which holds nothing. -/
def doubled (p : PushBack σ) : PushBack (PushBack σ) where
  stream := wrap p.stream
  held := p.held

private theorem serve_doubled (p : PushBack σ) (request : Request) :
    p.doubled.serve request = ((p.serve request).1, (p.serve request).2.doubled) := by
  obtain ⟨stream, held⟩ := p
  cases request with
  | reset text => rfl
  | next => cases held <;> rfl
  | putBack =>
      cases held with
      | some t => rfl
      | none =>
          have hlast : TokenStream.last? (wrap stream) = TokenStream.last? stream := rfl
          simp only [serve, putBack, doubled, hlast]
          cases TokenStream.last? stream <;> rfl
  | last => rfl
  | isHolding => rfl

private theorem transcript_doubled (p : PushBack σ) (requests : List Request) :
    p.doubled.transcript requests = p.transcript requests := by
  induction requests generalizing p with
  | nil => rfl
  | cons request rest ih => rw [transcript, transcript, serve_doubled, ih]

/-! ### The history of a wrapped stream -/

/-- **A push-back neither loses nor invents tokens.**  Its fresh answers are those of the stream
within; a token that waits is the last one that stream delivered, and is what comes next; a token can
be put back unless one waits or there is none, and a refusal changes nothing; and wrapping once more
makes no difference. -/
theorem replays_exactly {s : σ} (hs : Remembers s) (requests : List Request) :
    Exchanges s (fresh false ((wrap s).transcript requests)) ((wrap s).final requests).stream ∧
      (waiting false ((wrap s).transcript requests) = true →
        ∃ t, latest (TokenStream.last? s) (fresh false ((wrap s).transcript requests)) = some t ∧
          (((wrap s).final requests).serve .next).1 = .next (.ok t)) ∧
      ((∃ e, (((wrap s).final requests).serve .putBack).1 = .putBack (.error e)) ↔
        waiting false ((wrap s).transcript requests) = true ∨
          latest (TokenStream.last? s) (fresh false ((wrap s).transcript requests)) = none) ∧
      (∀ e, (((wrap s).final requests).serve .putBack).1 = .putBack (.error e) →
        e = .cannotPutBack ∧
          (((wrap s).final requests).serve .putBack).2 = (wrap s).final requests) ∧
      (wrap (wrap s)).transcript requests = (wrap s).transcript requests := by
  have hexchanges : Exchanges s (fresh false ((wrap s).transcript requests))
      ((wrap s).final requests).stream := (wrap s).exchanges_transcript requests
  have hlast := hs _ _ hexchanges
  have hwaits : ((wrap s).final requests).isHolding
      = waiting false ((wrap s).transcript requests) := (wrap s).isHolding_final requests
  have hcoherent := (coherent_wrap hs).final requests
  rw [← hlast, ← hwaits]
  generalize (wrap s).final requests = p at hexchanges hcoherent
  refine ⟨hexchanges, ?_, ?_, ?_, (wrap s).transcript_doubled requests⟩
  · intro hholding
    obtain ⟨t, ht⟩ := Option.isSome_iff_exists.1 hholding
    exact ⟨t, hcoherent.held t ht, by simp [serve, next, ht]⟩
  · rcases p.putBack_eq with ⟨hheld, t, ht, hput⟩ | ⟨hnot, hput⟩
    · simp [serve, hput, isHolding, hheld, ht]
    · refine iff_of_true ⟨_, by simp only [serve, hput]; rfl⟩ ?_
      exact hnot.imp_left Option.isSome_iff_ne_none.2
  · intro e he
    rcases p.putBack_eq with ⟨-, t, -, hput⟩ | ⟨-, hput⟩
    · simp [serve, hput] at he
    · have hrefused : p.serve .putBack = (.putBack (.error .cannotPutBack), p) := by
        simp only [serve, hput]
      rw [hrefused] at he ⊢
      cases he
      exact ⟨rfl, rfl⟩

/-- A script with an error behind its first token. -/
def brokenScript : Script :=
  .new [.ok ⟨.name, "x"⟩, .error (.strayCharacter "$"), .ok (.bare .stop)]

/-- Requests that put a token back before there is one, in time, twice, and behind an error. -/
def brokenRequests : List Request :=
  [.reset "", .putBack, .next, .putBack, .putBack, .isHolding, .next, .next, .last, .putBack]

theorem replays_brokenScript :
    Remembers brokenScript ∧
      fresh false ((wrap brokenScript).transcript brokenRequests)
        = [.reset "", .read (.ok ⟨.name, "x"⟩), .read (.error (.strayCharacter "$"))] ∧
      (((wrap brokenScript).final brokenRequests).serve .next).1 = .next (.ok ⟨.name, "x"⟩) := by
  have hs : Remembers brokenScript := brokenScript.remembers
  obtain ⟨-, hagain, -, -, -⟩ := replays_exactly hs brokenRequests
  obtain ⟨t, ht, hnext⟩ := hagain rfl
  have hfresh : fresh false ((wrap brokenScript).transcript brokenRequests)
      = [.reset "", .read (.ok ⟨.name, "x"⟩), .read (.error (.strayCharacter "$"))] := rfl
  rw [hfresh] at ht
  cases ht
  exact ⟨hs, hfresh, hnext⟩

end PushBack

end Calculator
