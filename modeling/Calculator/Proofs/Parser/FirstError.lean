/-
A line is refused at the first hopeless token.

When a line is refused, the parser has taken some tokens off its stream and one item
more.  The tokens begin a sentence, so nothing was wrong with the line up to there.  If
the item is an error of the stream, this is the error.  If it is a token, then no
sentence begins with the tokens and this one behind them, so nothing that could still
have come would have helped, and the error describes the token.

Nothing behind that item has been asked for.  So an error of the stream that lies
further ahead never takes the place of a token that is wrong before it.
-/
import Calculator.Proofs.Parser.Place

namespace Calculator

namespace LineReader

variable {σ : Type} [TokenStream σ]

/-- **Errors are reported at the first hopeless token.**  A line that is refused has taken tokens that
begin a sentence off its stream, and one item behind them: an error of the stream, which is passed
on, or a token behind which no line can go on, which is described. -/
theorem refuses_first_hopeless {d : Draft} {table : Table} (hb : d.build = .ok table)
    (r : LineReader σ) (hg : r.grammar = table.grammar) {source m : σ} {is : List Item}
    (hr : r.tokens = .wrap source) (hd : Delivers source is m) (hc : Closed is) :
    ∃ out, r.Yields out ∧ ∀ e, out.answer = .error e →
      ∃ (ts : List Token) (last : Item) (source' : σ),
        ts.map .ok ++ [last] <+: is ∧
        out.reader.tokens = .wrap source' ∧ Delivers source (ts.map .ok ++ [last]) source' ∧
        table.grammar.Begins ts ∧
        ((∃ e', last = .error e' ∧ e = .token e') ∨
          ∃ t, last = .ok t ∧ e.Describes t ∧ ¬ table.grammar.BeginsLine (ts ++ [t])) := by
  have ht : table.Sound := Draft.sound_of_build hb
  obtain ⟨out, front, rest, source', hyields, hitems, hreader, hfront, -, hsettles⟩ :=
    r.yields_at hr hd hc
  refine ⟨out, hyields, ?_⟩
  intro e he
  rw [hg, he] at hsettles
  obtain ⟨ts, last, q, hwrong, hleads, hbreaks⟩ := Grammar.exists_leads_of_wrong hsettles
  have hcut : front = ts.map .ok ++ [last] := by
    rw [hitems, List.append_cons] at hwrong
    exact List.append_cancel_right hwrong
  rw [hcut] at hitems hfront
  refine ⟨ts, last, source', ⟨rest, hitems.symm⟩, by rw [hreader], hfront, hleads.begins, ?_⟩
  cases last with
  | error e' => exact Or.inl ⟨e', rfl, hbreaks⟩
  | ok t =>
      refine Or.inr ⟨t, rfl, Grammar.describes_of_advance hbreaks, ?_⟩
      exact Grammar.not_beginsLine_of_advance ht hleads hbreaks

/-- The tokens of `( 2 ** - 3 =`, and behind them something that is no token. -/
def unclosedItems : List Item :=
  [.ok (.bare .leftParen), .ok ⟨.number, "2"⟩, .ok ⟨.symbol, "**"⟩, .ok ⟨.symbol, "-"⟩,
   .ok ⟨.number, "3"⟩, .ok (.bare .equals), .error (.strayCharacter "$")]

/-- A reader in front of these items. -/
def unclosedReader : LineReader Script :=
  ofStream Table.standard.grammar (Script.new unclosedItems)

theorem refuses_unclosed :
    (∃ m, Delivers (Script.new unclosedItems) unclosedItems m) ∧ Closed unclosedItems ∧
      ∃ out, unclosedReader.Yields out ∧ out.answer = .error (.unclosed "'='") ∧
        ∃ (ts : List Token) (t : Token) (source' : Script),
          ts.map .ok ++ [.ok t] <+: unclosedItems ∧ t.display = "'='" ∧
          Delivers (Script.new unclosedItems) (ts.map .ok ++ [.ok t]) source' ∧
          Table.standard.grammar.Begins ts ∧
          ¬ Table.standard.grammar.BeginsLine (ts ++ [t]) := by
  obtain ⟨m, hm⟩ := Script.exists_delivers (Script.new unclosedItems)
  have hc : Closed unclosedItems := ⟨.error (.strayCharacter "$"), by simp [unclosedItems], rfl⟩
  obtain ⟨out, hyields, hrefused⟩ :=
    refuses_first_hopeless Draft.build_standard unclosedReader rfl rfl hm hc
  obtain ⟨out', hout', herror⟩ : ∃ out', unclosedReader.readLine? 30 = some out' ∧
      (match out'.answer with | .error e => some e | .ok _ => none) = some (.unclosed "'='") :=
    Option.bind_eq_some_iff.1 (by decide +kernel)
  rw [(yields_of_readLine? hout').unique hyields] at herror
  have hanswer : out.answer = .error (.unclosed "'='") := by
    cases h : out.answer with
    | error e =>
        rw [h] at herror
        exact congrArg Except.error (Option.some.inj herror)
    | ok tree? =>
        rw [h] at herror
        cases herror
  obtain ⟨ts, last, source', hitems, -, hsource, hbegins, hlast⟩ := hrefused _ hanswer
  rcases hlast with ⟨e', -, he'⟩ | ⟨t, rfl, hdescribes, hhopeless⟩
  · cases he'
  · exact ⟨⟨m, hm⟩, hc, out, hyields, hanswer, ts, t, source', hitems, hdescribes.symm, hsource,
      hbegins, hhopeless⟩

end LineReader

end Calculator
