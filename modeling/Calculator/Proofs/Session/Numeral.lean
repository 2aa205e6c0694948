/-
Printed values can be typed back.

The text of an integer is a line that has this integer for its value.  For a number it
is digits and nothing else, so whatever the table there is one token, and it may have
spaces around it and zeros in front of it.  For a negative integer the sign is no part
of the number: the scanner makes a symbol of it, and the table has to say that the
symbol is a sign.  The standard table does.

A line that is an expression leaves the variables as they are, so a value can be typed
back anywhere in a session.
-/
import Calculator.Proofs.Session.Substitution

namespace Calculator

/-! ### Digits -/

namespace Decimal

/-- The digits of a number, with zeros in front of them. -/
def padded (zeros n : Nat) : String :=
  String.ofList (List.replicate zeros '0' ++ Nat.toDigits 10 n)

private theorem isNumeral_padded (zeros n : Nat) : isNumeral (padded zeros n) = true := by
  have hzero : ∀ c ∈ List.replicate zeros '0', c.isDigit = true := by
    intro c hc
    rw [List.eq_of_mem_replicate hc]
    decide
  have hdigits : ∀ c ∈ List.replicate zeros '0' ++ Nat.toDigits 10 n, c.isDigit = true :=
    List.forall_mem_append.2 ⟨hzero, fun c hc => isDigit_of_mem_toDigits hc⟩
  have hne : Nat.toDigits 10 n ≠ [] := Nat.toDigits_ne_nil
  simp only [isNumeral, padded, String.toList_ofList, List.all_eq_true.2 hdigits, Bool.and_true]
  simp [hne]

/-- Zeros in front count for nothing. -/
private theorem value_padded (zeros n : Nat) : value (padded zeros n).toList = n := by
  have hzeros : Nat.ofDigitChars 10 (List.replicate zeros '0') 0 = 0 := by
    rw [Nat.ofDigitChars_replicate_zero, Nat.mul_zero]
  rw [padded, String.toList_ofList, value, Nat.ofDigitChars_append, hzeros]
  exact value_toDigits n

/-- What is printed for a number are its digits. -/
private theorem repr_eq_padded (n : Nat) : n.repr = padded 0 n :=
  rfl

end Decimal

/-- Padded digits evaluate to their number. -/
theorem Tree.evaluate_padded (env : Environment) (zeros n : Nat) :
    (Tree.number (Decimal.padded zeros n)).evaluate env = .ok (n : Int) := by
  rw [evaluate, numberValue, if_pos (Decimal.isNumeral_padded zeros n), Decimal.value_padded]

/-! ### Reading them -/

namespace Table

variable {table : Table}

/-- A text with so many spaces before and behind it. -/
def spaced (before : Nat) (text : String) (behind : Nat) : String :=
  String.ofList (List.replicate before ' ' ++ text.toList ++ List.replicate behind ' ')

/-- **Digits are read as a number**, with spaces around them or without. -/
theorem reading_spaced (hs : table.Sound) (ho : table.grammar.Orderly) {digits : String}
    (hdigits : Decimal.isNumeral digits = true) (before behind : Nat) :
    (table.reading (spaced before digits behind)).answer = .ok (some (.number digits)) := by
  have hwrites : table.Writes [⟨.number, digits⟩] (spaced before digits behind) := by
    refine ⟨List.forall_mem_singleton.2 hdigits, before, ?_⟩
    rw [spaced, String.toList_ofList]
    exact .cons before (.nil behind) (by simp)
  have hchain : table.grammar.IsChain [⟨.number, digits⟩] (.bare .stop) (.number digits) :=
    (Grammar.Cuts.number (t := ⟨.number, digits⟩) rfl).isChain
  exact (reading_eq_ok_iff hs ho).2 ⟨_, hwrites, .expression hchain⟩

/-- **Digits behind a sign are read as a number with the sign**, whatever the priority of the sign,
because there is nothing else that it could take. -/
theorem reading_signed (hs : table.Sound) (ho : table.grammar.Orderly) {op : UnaryOp}
    {symbol : String} {priority : Nat} (hsymbol : table.grammar.unarySymbol op = some symbol)
    (hpriority : table.grammar.unaryPriority op = some priority) {digits : String}
    (hdigits : Decimal.isNumeral digits = true) :
    (table.reading (symbol ++ digits)).answer = .ok (some (.unary op (.number digits))) := by
  have hsign : table.grammar.IsSignOf op priority ⟨.symbol, symbol⟩ := ⟨rfl, hsymbol, hpriority⟩
  have hmem : symbol ∈ table.lexicon.unary :=
    (hs.mem_unary symbol).2 ⟨op, priority, hpriority, hsymbol⟩
  have hwrites : table.Writes [⟨.symbol, symbol⟩, ⟨.number, digits⟩] (symbol ++ digits) := by
    refine ⟨List.forall_mem_cons.2 ⟨?_, List.forall_mem_singleton.2 hdigits⟩, 0, ?_⟩
    · simp [Token.WellFormed, Lexicon.isSymbol_iff, Lexicon.symbols, hmem]
    · have hnumber : Writing 0 [⟨.number, digits⟩] digits.toList := by
        simpa [Token.lexeme] using Writing.cons 0 (.nil 0) (t := ⟨.number, digits⟩) (by simp)
      -- A symbol ends where a digit follows, so there need be no space.
      simpa [Token.lexeme, Token.RunsInto, Token.isWord] using
        Writing.cons 0 hnumber (t := ⟨.symbol, symbol⟩) (by simp [Token.RunsInto, Token.isWord])
  have hend : table.grammar.EndsAt (priority + 1) [.bare .stop] :=
    Grammar.endsAt_cons (by simp [Token.bare]) _
  have hchain : table.grammar.IsChain [⟨.symbol, symbol⟩, ⟨.number, digits⟩] (.bare .stop)
      (.unary op (.number digits)) :=
    (Grammar.Cuts.sign hsign (.number (t := ⟨.number, digits⟩) rfl) (.noLink _) (by simp) hend
      (.one _)).isChain
  exact (reading_eq_ok_iff hs ho).2 ⟨_, hwrites, .expression hchain⟩

end Table

/-! ### Running them -/

/-- The line of an expression binds nothing. -/
theorem Environment.env_execute_of_isExpression {tree : Tree} (h : tree.IsExpression)
    (env : Environment) : (env.execute tree).env = env := by
  unfold execute
  split
  · exact absurd rfl (h _ _)
  · split <;> rfl

namespace Session

variable {s : Session} {table : Table}

/-- A text that is read to an expression with a value has this value, and binds nothing. -/
theorem Uses.run_eq_value (hs : s.Uses table) {text : String} {tree : Tree} {v : Int}
    (h : (table.reading text).answer = .ok (some tree)) (htree : tree.IsExpression)
    (hv : tree.evaluate s.env = .ok v) :
    (s.run text).answer = .ok (some v) ∧ (s.run text).session.env = s.env := by
  constructor
  · rw [hs.answer_run h htree, hv]
    rfl
  · rw [(hs.run_eq_execute h).2]
    exact Environment.env_execute_of_isExpression htree s.env

/-- Digits have the number they write for their value, zeros in front and spaces around or not. -/
theorem Uses.run_padded (hs : s.Uses table) (ht : table.Sound) (ho : table.grammar.Orderly)
    (before zeros n behind : Nat) :
    (s.run (Table.spaced before (Decimal.padded zeros n) behind)).answer = .ok (some (n : Int)) ∧
      (s.run (Table.spaced before (Decimal.padded zeros n) behind)).session.env = s.env :=
  hs.run_eq_value (Table.reading_spaced ht ho (Decimal.isNumeral_padded zeros n) before behind)
    (by simp [Tree.IsExpression]) (Tree.evaluate_padded s.env zeros n)

/-- What is printed for an integer has this integer for its value, with the standard table. -/
theorem Uses.run_render (hs : s.Uses .standard) (v : Int) :
    (s.run (Decimal.render v)).answer = .ok (some v) ∧
      (s.run (Decimal.render v)).session.env = s.env := by
  have ht : Table.standard.Sound := Draft.sound_of_build Draft.build_standard
  have ho : Table.standard.grammar.Orderly := Draft.orderly_of_build Draft.build_standard
  cases v with
  | ofNat n =>
      simpa [Table.spaced, Decimal.render, Decimal.repr_eq_padded] using hs.run_padded ht ho 0 0 n 0
  | negSucc n =>
      have hsymbol : Table.standard.grammar.unarySymbol .neg = some "-" := by decide
      have hpriority : Table.standard.grammar.unaryPriority .neg = some 0 := by decide
      have hread : (Table.standard.reading ("-" ++ Decimal.padded 0 (n + 1))).answer
          = .ok (some (.unary .neg (.number (Decimal.padded 0 (n + 1))))) :=
        Table.reading_signed ht ho hsymbol hpriority (Decimal.isNumeral_padded 0 (n + 1))
      have hvalue : (Tree.unary .neg (.number (Decimal.padded 0 (n + 1)))).evaluate s.env
          = .ok (Int.negSucc n) := by
        rw [Tree.evaluate, Tree.evaluate_padded]
        rfl
      rw [Decimal.render, Decimal.repr_eq_padded]
      exact hs.run_eq_value hread (by simp [Tree.IsExpression]) hvalue

/-- **Printed values can be typed back.**  With the standard table what is printed for an integer is
a line that has this integer for its value and binds nothing.  With any table the same is true of
the digits of a number, with any zeros in front of them and any spaces around. -/
theorem run_typed_back :
    (∀ s : Session, s.Uses .standard → ∀ v : Int,
      (s.run (Decimal.render v)).answer = .ok (some v) ∧
        (s.run (Decimal.render v)).session.env = s.env) ∧
    ∀ (d : Draft) (table : Table), d.build = .ok table → ∀ s : Session, s.Uses table →
      ∀ before zeros n behind : Nat,
        (s.run (Table.spaced before (Decimal.padded zeros n) behind)).answer
            = .ok (some (n : Int)) ∧
          (s.run (Table.spaced before (Decimal.padded zeros n) behind)).session.env = s.env := by
  constructor
  · intro s hs v
    exact hs.run_render v
  · intro d table hb s hs before zeros n behind
    exact hs.run_padded (Draft.sound_of_build hb) (Draft.orderly_of_build hb) before zeros n behind

/-- A session in which a variable is bound. -/
def oneBound : Session :=
  new .standard (Environment.empty.set "x" 3)

theorem run_typed_back_oneBound :
    Draft.standard.build = .ok .standard ∧ oneBound.Uses .standard ∧
      (oneBound.run "-70").answer = .ok (some (-70)) ∧
      (oneBound.run "-70").session.env = oneBound.env ∧
      (oneBound.run "  007 ").answer = .ok (some 7) := by
  have hs : oneBound.Uses .standard := uses_new _ _
  have hrender : Decimal.render (-70) = "-70" := by decide
  have hspaced : Table.spaced 2 (Decimal.padded 2 7) 1 = "  007 " := by decide
  have hvalue := run_typed_back.1 _ hs (-70)
  rw [hrender] at hvalue
  have hnumber := run_typed_back.2 _ _ Draft.build_standard _ hs 2 2 7 1
  rw [hspaced] at hnumber
  exact ⟨Draft.build_standard, hs, hvalue.1, hvalue.2, hnumber.1⟩

end Session

end Calculator
