/-
The variables that are bound, and their values.

An environment lists its bindings in the order of their names, by code points, and
each name once.  So the list is a function of what the names are bound to: two
environments in which every name means the same are equal.
-/

namespace Calculator

/-- Values of names. -/
structure Environment where
  /-- The bindings, in the order of their names. -/
  bindings : List (String × Int)
  /-- Each name stands before all that follow it, so none stands twice. -/
  sorted : bindings.Pairwise fun a b => a.1 < b.1
deriving DecidableEq

namespace Environment

/-- The environment in which nothing is bound. -/
def empty : Environment where
  bindings := []
  sorted := .nil

/-! ### Reading a binding -/

/-- The value of a name in a list of bindings. -/
def valueIn (name : String) : List (String × Int) → Option Int
  | [] => none
  | (n, v) :: rest => if n = name then some v else valueIn name rest

/-- The value of a name, if it is bound. -/
def lookup (env : Environment) (name : String) : Option Int :=
  valueIn name env.bindings

/-! ### Writing a binding -/

/-- Sorted bindings with a name bound anew. -/
def insertIn (name : String) (value : Int) : List (String × Int) → List (String × Int)
  | [] => [(name, value)]
  | (n, v) :: rest =>
    if name < n then (name, value) :: (n, v) :: rest
    else if name = n then (name, value) :: rest
    else (n, v) :: insertIn name value rest

/-- Nothing appears in the list but the new binding. -/
private theorem mem_insertIn {name : String} {value : Int} {l : List (String × Int)}
    {b : String × Int}
    (h : b ∈ insertIn name value l) : b = (name, value) ∨ b ∈ l := by
  induction l with
  | nil => simpa [insertIn] using h
  | cons a rest ih =>
    rw [insertIn] at h
    split at h
    · simpa using h
    · split at h
      · exact (List.mem_cons.1 h).imp id fun h => List.mem_cons_of_mem _ h
      · rcases List.mem_cons.1 h with rfl | h
        · exact Or.inr (by simp)
        · exact (ih h).imp id fun h => List.mem_cons_of_mem _ h

private theorem sorted_insertIn {name : String} {value : Int} {l : List (String × Int)}
    (h : l.Pairwise fun a b => a.1 < b.1) :
    (insertIn name value l).Pairwise fun a b => a.1 < b.1 := by
  induction l with
  | nil => simp [insertIn]
  | cons a rest ih =>
    obtain ⟨ha, hrest⟩ := List.pairwise_cons.1 h
    rw [insertIn]
    split
    · next hlt =>
      refine List.pairwise_cons.2 ⟨fun b hb => ?_, h⟩
      rcases List.mem_cons.1 hb with rfl | hb
      · exact hlt
      · exact String.lt_trans hlt (ha b hb)
    · next hnot =>
      split
      · next heq => exact List.pairwise_cons.2 ⟨fun b hb => heq ▸ ha b hb, hrest⟩
      · next hne =>
        refine List.pairwise_cons.2 ⟨fun b hb => ?_, ih hrest⟩
        rcases mem_insertIn hb with rfl | hb
        · exact Std.lt_of_le_of_ne (Std.not_lt.1 hnot) (Ne.symm hne)
        · exact ha b hb

/-- The environment with a name bound anew. -/
def set (env : Environment) (name : String) (value : Int) : Environment where
  bindings := insertIn name value env.bindings
  sorted := sorted_insertIn env.sorted

/-- The environment of a list of bindings; the last binding of a name wins. -/
def ofList (bindings : List (String × Int)) : Environment :=
  bindings.foldl (fun env b => env.set b.1 b.2) empty

/-! ### What a name means -/

theorem valueIn_insertIn (name x : String) (value : Int) (l : List (String × Int)) :
    valueIn x (insertIn name value l) = if name = x then some value else valueIn x l := by
  induction l with
  | nil => simp [insertIn, valueIn]
  | cons a rest ih =>
    rw [insertIn]
    split
    · simp [valueIn]
    · split
      · next heq => by_cases hx : name = x <;> simp [valueIn, hx, ← heq]
      · next hne =>
        by_cases ha : a.1 = x
        · have : name ≠ x := fun h => hne (h.trans ha.symm)
          simp [valueIn, ha, this]
        · simp [valueIn, ha, ih]

@[simp] theorem lookup_set (env : Environment) (name x : String) (value : Int) :
    (env.set name value).lookup x = if name = x then some value else env.lookup x :=
  valueIn_insertIn name x value env.bindings

@[simp] theorem lookup_empty (x : String) : empty.lookup x = none :=
  rfl

/-- Behind bindings in order a name has the value of its last one, or the value that it had. -/
theorem lookup_foldl_set (env : Environment) (bindings : List (String × Int)) (x : String) :
    (bindings.foldl (fun env b => env.set b.1 b.2) env).lookup x
      = ((bindings.filter fun b => decide (b.1 = x)).getLast?.map Prod.snd).or (env.lookup x) := by
  induction bindings generalizing env with
  | nil => rfl
  | cons b rest ih =>
    rw [List.foldl_cons, ih, lookup_set]
    by_cases hb : b.1 = x
    · -- A later binding of the name hides this one, and this one what was there.
      rw [if_pos hb, List.filter_cons_of_pos (by simpa using hb), List.getLast?_cons]
      cases (rest.filter fun b => decide (b.1 = x)).getLast? <;> rfl
    · rw [if_neg hb, List.filter_cons_of_neg (by simpa using hb)]

/-- In the environment of a list a name has the value of its last binding. -/
theorem lookup_ofList (bindings : List (String × Int)) (x : String) :
    (ofList bindings).lookup x
      = (bindings.filter fun b => decide (b.1 = x)).getLast?.map Prod.snd := by
  rw [ofList, lookup_foldl_set, lookup_empty, Option.or_none]

/-- A name before all bindings is not bound. -/
private theorem valueIn_eq_none {x : String} {l : List (String × Int)} (h : ∀ b ∈ l, x < b.1) :
    valueIn x l = none := by
  induction l with
  | nil => rfl
  | cons a rest ih =>
    have hne : a.1 ≠ x := fun he => String.lt_irrefl x (by simpa [he] using h a (by simp))
    simpa [valueIn, hne] using ih fun b hb => h b (by simp [hb])

/-- A name before the first of sorted bindings is not bound. -/
private theorem valueIn_cons_eq_none {x : String} {b : String × Int} {l : List (String × Int)}
    (hx : x < b.1) (hb : ∀ c ∈ l, b.1 < c.1) : valueIn x (b :: l) = none := by
  refine valueIn_eq_none fun c hc => ?_
  rcases List.mem_cons.1 hc with rfl | hc
  · exact hx
  · exact String.lt_trans hx (hb c hc)

private theorem eq_of_valueIn_eq {l m : List (String × Int)} (hl : l.Pairwise fun a b => a.1 < b.1)
    (hm : m.Pairwise fun a b => a.1 < b.1) (h : ∀ x, valueIn x l = valueIn x m) : l = m := by
  induction l generalizing m with
  | nil =>
    cases m with
    | nil => rfl
    | cons b m => simpa [valueIn] using h b.1
  | cons a l ih =>
    cases m with
    | nil => simpa [valueIn] using h a.1
    | cons b m =>
      obtain ⟨ha, hl⟩ := List.pairwise_cons.1 hl
      obtain ⟨hb, hm⟩ := List.pairwise_cons.1 hm
      have hkey : a.1 = b.1 := by
        rcases Std.lt_trichotomy a.1 b.1 with hlt | heq | hlt
        · have := h a.1
          rw [valueIn_cons_eq_none hlt hb] at this
          simp [valueIn] at this
        · exact heq
        · have := h b.1
          rw [valueIn_cons_eq_none hlt ha] at this
          simp [valueIn] at this
      have hval : a.2 = b.2 := by
        have := h a.1
        simpa [valueIn, hkey] using this
      have htail : l = m := by
        refine ih hl hm fun x => ?_
        by_cases hx : a.1 = x
        · rw [valueIn_eq_none (hx ▸ ha), valueIn_eq_none (hx ▸ hkey ▸ hb)]
        · have hx' : b.1 ≠ x := hkey ▸ hx
          simpa [valueIn, hx, hx'] using h x
      rw [htail, Prod.ext hkey hval]

/-- **An environment is what its names mean.** -/
theorem ext_lookup {env env' : Environment} (h : ∀ x, env.lookup x = env'.lookup x) :
    env = env' := by
  obtain ⟨l, hl⟩ := env
  obtain ⟨m, hm⟩ := env'
  obtain rfl : l = m := eq_of_valueIn_eq hl hm h
  rfl

end Environment

end Calculator
