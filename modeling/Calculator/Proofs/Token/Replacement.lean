/-
Putting a text in the place of a name.

A name is replaced token by token: a text is cut as a scanner would cut it, each token
that is the name gives way to other characters, and everything else stays as it is
written, spaces included.  So a name inside a longer one is left alone.

If what is put in is a bracket around a writing of some tokens, the result is a
writing again, of the tokens with these in brackets in the place of the name
(`Writing.replaceIn`).  That needs the brackets: they keep what is put in apart from
its neighbours.
-/
import Calculator.Proofs.Token.Writing

namespace Calculator

/-! ### Replacing a name in a text -/

/-- Behind a token there is less of a text than there was in front of it. -/
private theorem length_after_scan_lt {v : Lexicon} {cs r after : List Char} {c : Char} {t : Token}
    (hskip : skipSpaces cs = c :: r) (h : scan v (c :: r) = .ok (t, after)) :
    after.length < cs.length := by
  have hlt := (length_lt_of_scan h).1
  have hle : (skipSpaces cs).length ≤ cs.length :=
    (List.dropWhile_sublist fun c => decide (c = ' ')).length_le
  rw [hskip] at hle
  omega

namespace Lexicon

/-- The characters with others in the place of every token that is the name.  From a place where no
token can be read off they are left as they are. -/
def replaceIn (v : Lexicon) (name : String) (new cs : List Char) : List Char :=
  cs.takeWhile (fun c => decide (c = ' ')) ++
    match _hskip : skipSpaces cs with
    | [] => []
    | c :: r =>
      match _hscan : scan v (c :: r) with
      | .error _ => c :: r
      | .ok (t, after) =>
        (if t = ⟨.name, name⟩ then new else t.lexeme) ++ v.replaceIn name new after
termination_by cs.length
decreasing_by exact length_after_scan_lt _hskip _hscan

/-- The text with another in the place of every token that is the name. -/
def replaceName (v : Lexicon) (name new text : String) : String :=
  String.ofList (v.replaceIn name new.toList text.toList)

variable {v : Lexicon} {name : String} {new : List Char}

/-- The spaces in front of a text are all that its spaces are taken for. -/
theorem takeWhile_spaces (gap : Nat) {cs : List Char} (h : skipSpaces cs = cs) :
    (List.replicate gap ' ' ++ cs).takeWhile (fun c => decide (c = ' '))
      = List.replicate gap ' ' := by
  have hwhole := List.takeWhile_append_dropWhile
    (p := fun c => decide (c = ' ')) (l := List.replicate gap ' ' ++ cs)
  have hrest : (List.replicate gap ' ' ++ cs).dropWhile (fun c => decide (c = ' ')) = cs :=
    (skipSpaces_replicate_append gap cs).trans h
  rw [hrest] at hwhole
  exact List.append_cancel_right hwhole

/-- There is nothing to replace in spaces. -/
private theorem replaceIn_spaces (gap : Nat) :
    v.replaceIn name new (List.replicate gap ' ') = List.replicate gap ' ' := by
  have hspaces := takeWhile_spaces gap (show skipSpaces [] = [] from rfl)
  have hskip := skipSpaces_replicate_append gap []
  rw [List.append_nil] at hspaces hskip
  rw [replaceIn, hspaces]
  split
  · exact List.append_nil _
  · rename_i h
    rw [hskip] at h
    cases h

/-- **One token is replaced or kept**, and then comes the rest. -/
theorem replaceIn_of_scan (gap : Nat) {cs after : List Char} {t : Token} (hne : cs ≠ [])
    (hskip : skipSpaces cs = cs) (hscan : scan v cs = .ok (t, after)) :
    v.replaceIn name new (List.replicate gap ' ' ++ cs)
      = List.replicate gap ' ' ++
        ((if t = ⟨.name, name⟩ then new else t.lexeme) ++ v.replaceIn name new after) := by
  have hskip' : skipSpaces (List.replicate gap ' ' ++ cs) = cs :=
    (skipSpaces_replicate_append gap cs).trans hskip
  rw [replaceIn, takeWhile_spaces gap hskip]
  congr 1
  split
  · rename_i h
    exact absurd (hskip'.symm.trans h) hne
  · rename_i c r h
    obtain rfl : cs = c :: r := hskip'.symm.trans h
    split
    · rename_i h
      rw [hscan] at h
      cases h
    · rename_i h
      rw [hscan] at h
      cases h
      rfl

end Lexicon

/-! ### Replacing a name in tokens -/

/-- What stands in the place of a token when a name is replaced. -/
def Token.replace (name : String) (new : List Token) (t : Token) : List Token :=
  if t = ⟨.name, name⟩ then bracketed new else [t]

/-- A token of another kind is kept. -/
theorem Token.replace_of_kind_ne {t : Token} (h : t.kind ≠ .name) (name : String)
    (new : List Token) : t.replace name new = [t] := by
  refine if_neg ?_
  rintro rfl
  exact h rfl

/-- The tokens with others, in brackets, in the place of a name. -/
def replaceTokens (name : String) (new ts : List Token) : List Token :=
  ts.flatMap (Token.replace name new)

variable {name : String} {new : List Token}

theorem replaceTokens_cons (t : Token) (ts : List Token) :
    replaceTokens name new (t :: ts) = t.replace name new ++ replaceTokens name new ts :=
  List.flatMap_cons

/-- In front there is the token that was there, or a bracket. -/
theorem mem_head?_replaceTokens {ts : List Token} {u : Token}
    (h : u ∈ (replaceTokens name new ts).head?) : u ∈ ts.head? ∨ u.IsMark := by
  cases ts with
  | nil => cases h
  | cons t ts =>
      rw [replaceTokens_cons, Token.replace] at h
      by_cases hname : t = ⟨.name, name⟩
      · rw [if_pos hname] at h
        exact Or.inr (Token.isMark_of_mem_head?_bracketed u h)
      · rw [if_neg hname] at h
        exact Or.inl h

theorem wellFormed_replaceTokens {v : Lexicon} {ts : List Token}
    (hnew : ∀ t ∈ new, t.WellFormed v) (hts : ∀ t ∈ ts, t.WellFormed v) :
    ∀ t ∈ replaceTokens name new ts, t.WellFormed v := by
  intro t ht
  obtain ⟨u, hu, ht⟩ := List.mem_flatMap.1 ht
  unfold Token.replace at ht
  split at ht
  · exact Token.wellFormed_bracketed hnew t ht
  · obtain rfl : t = u := by simpa using ht
    exact hts t hu

/-- **A writing in which a name is replaced by a writing in brackets is a writing.** -/
theorem Writing.replaceIn {v : Lexicon} (hv : ∀ s ∈ v.symbols, isLexable s = true)
    {gap inner : Nat} {ts : List Token} {ds cs : List Char} (hnew : Writing inner new ds)
    (h : Writing gap ts cs) (hts : ∀ t ∈ ts, t.WellFormed v) :
    Writing gap (replaceTokens name new ts) (v.replaceIn name ('(' :: (ds ++ [')'])) cs) := by
  induction h with
  | nil gap =>
      rw [Lexicon.replaceIn_spaces]
      exact .nil gap
  | @cons gap after t ts cs h hgap ih =>
      obtain ⟨ht, hts⟩ := List.forall_mem_cons.1 hts
      have hrest := ih hts
      have hskip : skipSpaces (t.lexeme ++ cs) = t.lexeme ++ cs := skipSpaces_lexeme_append hv ht cs
      have hscan : scan v (t.lexeme ++ cs) = .ok (t, cs) :=
        Token.scan_complete hv ht ((endsBefore_iff hv hts h).2 hgap)
      have hne : t.lexeme ++ cs ≠ [] := by
        obtain ⟨c, r, hlexeme, -⟩ := Token.exists_lexeme_eq_cons hv ht
        simp [hlexeme]
      rw [List.append_assoc, Lexicon.replaceIn_of_scan gap hne hskip hscan]
      rw [replaceTokens_cons, Token.replace]
      by_cases hname : t = ⟨.name, name⟩
      · rw [if_pos hname, if_pos hname]
        simpa using hnew.bracketed gap hrest
      · rw [if_neg hname, if_neg hname, ← List.append_assoc]
        refine .cons gap hrest ?_
        intro u hu hruns
        rcases mem_head?_replaceTokens hu with hu | hmark
        · exact hgap u hu hruns
        · exact absurd hruns (hmark.not_runsInto_self t)

end Calculator
