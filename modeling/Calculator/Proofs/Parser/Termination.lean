/-
Reading comes to an end.

A parser ends because its chains of calls do, and how far the chains can go bounds its
budget.  That is so wherever some number counts the tokens to come (`Calls.decreases`,
`isSome_part`), and a stream that runs dry has such a number, its supply: a token that
is delivered takes one off, and one that is put back is to come once more.

The supply is all that is asked of a stream.  Only that a line asks for nothing behind the
end needs more, namely that the stream tells its last token; one that tells another has that
one put back in place of the end.
-/
import Calculator.Proofs.Parser.Requests
import Calculator.Proofs.Token.Supply
import Mathlib.Logic.Relation

namespace Calculator

open TokenStream (Exchanges TellsLast reads)

/-- So many tokens are still to come, the one that is held among them. -/
def PushBack.Supplies {σ : Type} [TokenStream σ] (p : PushBack σ) (n : Nat) : Prop :=
  ∃ k, TokenStream.Supplies p.stream k ∧ n = k + p.held.toList.length

namespace Parser

variable {σ : Type} [TokenStream σ] {g : Grammar} {p : PushBack σ} {n : Nat}

/-- **The supply of a stream is a measure.** -/
theorem measure_supplies : Measure (PushBack.Supplies : PushBack σ → Nat → Prop) := by
  refine ⟨?_, ?_⟩
  · rintro ⟨stream, held⟩ p' n t ⟨k, hk, rfl⟩ ⟨events, hstep⟩
    cases held with
    | some u =>
        cases hstep
        exact ⟨k, by simp, k, hk, rfl⟩
    | none =>
        simp only [token, PushBack.next] at hstep
        cases hnext : TokenStream.next stream with
        | mk i stream' =>
            rw [hnext] at hstep
            cases i with
            | error e => cases hstep
            | ok u =>
                cases hstep
                obtain ⟨l, rfl, hl⟩ := hk.of_next_ok hnext
                exact ⟨l, by simp, l, hl, rfl⟩
  · rintro p p' n ⟨k, hk, rfl⟩ ⟨events, hstep⟩
    simp only [putBack, PushBack.putBack] at hstep
    split at hstep
    · rename_i p'' hput
      cases hstep
      split at hput
      · rename_i t hheld hlast
        cases hput
        exact ⟨k, hk, by simp [hheld]⟩
      · cases hput
    · cases hstep

/-- Along a chain of calls the tokens to come decrease, or they stay and the rank does. -/
theorem decreases_of_transGen {x y : Part × PushBack σ} (h : Relation.TransGen (Calls g) x y)
    (hn : x.2.Supplies n) :
    ∃ k, y.2.Supplies k ∧ Prod.Lex (· < ·) (· < ·) (k, rank g y.1) (n, rank g x.1) := by
  induction h with
  | single hcall => exact hcall.decreases measure_supplies hn
  | tail _ hcall ih =>
      obtain ⟨m, hm, hlex⟩ := ih
      obtain ⟨k, hk, hlex'⟩ := hcall.decreases measure_supplies hm
      refine ⟨k, hk, ?_⟩
      simp only [Prod.lex_def] at hlex hlex' ⊢
      omega

/-- **No chain of calls goes on for ever.** -/
theorem acc_calls {x : Part × PushBack σ} (hn : x.2.Supplies n) :
    Acc (fun y x => Calls g x y) x := by
  have hwf : WellFounded (Prod.Lex (· < ·) (· < ·) : Nat × Nat → Nat × Nat → Prop) :=
    (Prod.lex Nat.lt_wfRel Nat.lt_wfRel).wf
  generalize hpair : (n, rank g x.1) = pair
  induction pair using hwf.induction generalizing x n with
  | _ pair ih =>
      refine .intro x fun y hcall => ?_
      obtain ⟨k, hk, hlex⟩ := hcall.decreases measure_supplies hn
      rw [hpair] at hlex
      exact ih _ hlex hk rfl

end Parser

namespace LineReader

open Calculator.Parser (Calls part rank)

variable {σ : Type} [TokenStream σ]

/-- **Reading comes to an end on every stream that runs dry**, whatever the grammar.  Along every chain
of calls the tokens still to come decrease, the one that is held among them, or they stay and the
levels that are left do; so no chain goes on for ever, every part is read to an end and so is the
line.  The stream comes to an end or an error, and a line asks for no token behind the first error.
Nor does it ask for one behind the first end, if it begins with no token held, as every line does,
and its stream tells its last token.  The latter is the contract of every token source and not a
condition of its own: `last?` is documented as the token that was delivered last. -/
theorem reading_ends {r : LineReader σ} {n : Nat} (hn : r.tokens.Supplies n) :
    (∀ c c' p', Relation.TransGen (Calls r.grammar) (c, r.tokens) (c', p') → ∃ k, p'.Supplies k ∧
        Prod.Lex (· < ·) (· < ·) (k, rank r.grammar c') (n, rank r.grammar c)) ∧
      (∀ c, Acc (fun y x => Calls r.grammar x y) (c, r.tokens)) ∧
      (∀ c fuel, n * (r.grammar.height + 2) + rank r.grammar c < fuel →
        (part r.grammar fuel c r.tokens).isSome = true) ∧
      (∀ fuel, r.grammar.budget n ≤ fuel → (r.readLine? fuel).isSome = true) ∧
      (∃ (ts : List Token) (last : Item) (m : σ), (∀ t ∈ ts, t.kind ≠ .stop) ∧
        Item.closes last = true ∧ Exchanges r.tokens.stream (reads (ts.map .ok ++ [last])) m) ∧
      ∀ fuel out, r.readLine? fuel = some out → ∃ front, r.exchanged? fuel = some (reads front) ∧
        (∀ us e m, Exchanges r.tokens.stream (reads (us ++ [.error e])) m →
          front <+: us ++ [.error e]) ∧
        (TellsLast r.tokens.stream → r.tokens.held = none → ∀ us i m, Item.closes i = true →
          Exchanges r.tokens.stream (reads (us ++ [i])) m → front <+: us ++ [i]) := by
  refine ⟨?_, ?_, ?_, ?_, ?_, fun fuel out => exists_requests⟩
  · intro c c' p' hchain
    exact Parser.decreases_of_transGen hchain hn
  · intro c
    exact Parser.acc_calls hn
  · intro c fuel hfuel
    exact Parser.isSome_part Parser.measure_supplies hn hfuel
  · intro fuel hfuel
    rw [readLine?, Option.isSome_map]
    exact Parser.isSome_line Parser.measure_supplies hn hfuel
  · obtain ⟨k, hk, -⟩ := hn
    exact TokenStream.RunsDry.exists_closing ⟨k, hk⟩

/-- A reader in front of `- ( 3`, where the stream breaks off. -/
def unfinishedReader : LineReader Script :=
  ofStream Table.standard.grammar
    (.new [.ok ⟨.symbol, "-"⟩, .ok (.bare .leftParen), .ok ⟨.number, "3"⟩])

/-- A reader in front of `3`, behind which the line ends and the stream does not. -/
def finishedReader : LineReader Script :=
  ofStream Table.standard.grammar
    (.new [.ok ⟨.number, "3"⟩, .ok (.bare .stop), .ok ⟨.number, "4"⟩])

/-- The levels of a power call those of the sign's operand, which are looser.  Behind an error
nothing more is asked for, and nothing behind the end, though there is more. -/
theorem reading_ends_unfinished :
    unfinishedReader.tokens.Supplies 3 ∧
      (∃ p', Relation.TransGen (Calls Table.standard.grammar)
          (.expression 2, unfinishedReader.tokens) (.expression 1, p') ∧ ∃ k < 3, p'.Supplies k) ∧
      (∃ out, unfinishedReader.readLine? 24 = some out ∧ ∃ front,
        unfinishedReader.exchanged? 24 = some (reads front) ∧ front.length ≤ 4) ∧
      (finishedReader.tokens.Supplies 3 ∧ TellsLast finishedReader.tokens.stream ∧
        finishedReader.tokens.held = none) ∧
      ∃ out, finishedReader.readLine? 24 = some out ∧ ∃ front,
        finishedReader.exchanged? 24 = some (reads front) ∧
          front <+: [.ok ⟨.number, "3"⟩, .ok (.bare .stop)] := by
  have hn : unfinishedReader.tokens.Supplies 3 :=
    ⟨3, Script.supplies unfinishedReader.tokens.stream, rfl⟩
  have hn' : finishedReader.tokens.Supplies 3 :=
    ⟨3, Script.supplies finishedReader.tokens.stream, rfl⟩
  have hs : TellsLast finishedReader.tokens.stream :=
    finishedReader.tokens.stream.remembers.tellsLast
  obtain ⟨hdecreases, -, -, hends, -, hasks⟩ := reading_ends hn
  obtain ⟨-, -, -, hends', -, hasks'⟩ := reading_ends hn'
  refine ⟨hn, ?_, ?_, ⟨hn', hs, rfl⟩, ?_⟩
  · obtain ⟨p', hp'⟩ : ∃ p', (Parser.token : Parser Script Token).Returns unfinishedReader.tokens
        ⟨.symbol, "-"⟩ p' := ⟨_, [], rfl⟩
    have hsign : Calls Table.standard.grammar (.operand, unfinishedReader.tokens)
        (.expression (Table.standard.grammar.operandLevel 0), p') :=
      .sign hp' rfl rfl rfl
    have hchain : Relation.TransGen (Calls Table.standard.grammar)
        (.expression 2, unfinishedReader.tokens) (.expression 1, p') :=
      .tail (.tail (.single (.tighter (by decide))) (.operand (by decide))) hsign
    obtain ⟨k, hk, hlex⟩ := hdecreases _ _ _ hchain
    -- The rank is larger behind the sign, so the tokens have decreased.
    have hrank : ¬ rank Table.standard.grammar (.expression 1)
        < rank Table.standard.grammar (.expression 2) := by decide
    have hlt : k < 3 := (Prod.lex_def.1 hlex).resolve_right fun h => hrank h.2
    exact ⟨p', hchain, k, hlt, hk⟩
  · obtain ⟨out, hout⟩ := Option.isSome_iff_exists.1 (hends 24 (by decide))
    obtain ⟨front, hfront, herror, -⟩ := hasks 24 out hout
    have hbroken : Exchanges unfinishedReader.tokens.stream
        (reads ([.ok ⟨.symbol, "-"⟩, .ok (.bare .leftParen), .ok ⟨.number, "3"⟩]
          ++ [.error (.afterEnd "")])) _ :=
      .read rfl (.read rfl (.read rfl (.read rfl (.nil _))))
    exact ⟨out, hout, front, hfront, (herror _ _ _ hbroken).length_le⟩
  · obtain ⟨out, hout⟩ := Option.isSome_iff_exists.1 (hends' 24 (by decide))
    obtain ⟨front, hfront, -, hstop⟩ := hasks' 24 out hout
    have hended : Exchanges finishedReader.tokens.stream
        (reads ([.ok ⟨.number, "3"⟩] ++ [.ok (.bare .stop)])) _ := .read rfl (.read rfl (.nil _))
    exact ⟨out, hout, front, hfront, hstop hs rfl _ _ _ rfl hended⟩

end LineReader

end Calculator
