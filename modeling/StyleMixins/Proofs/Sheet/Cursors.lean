import StyleMixins.Proofs.Text.Trim
import StyleMixins.Sheet.Head

namespace StyleMixins.Sheet

variable {cs ws taken rest : List Char} {c : Cursor} {x : Char}

theorem eq_of_isGapChar (h : isGapChar x = true) : x = ' ' ∨ x = '\t' ∨ x = '\r' ∨ x = '\n' := by
  simpa [isGapChar, or_assoc] using h

theorem isBlank_of_isGapChar (h : isGapChar x = true) : Text.isBlank x = true := by
  rcases eq_of_isGapChar h with rfl | rfl | rfl | rfl <;> decide

theorem isHeadChar_of_isGapChar (h : isGapChar x = true) : isHeadChar x = true := by
  rcases eq_of_isGapChar h with rfl | rfl | rfl | rfl <;> decide

/-- Nothing is ignored at the start of the text. -/
def Solid (cs : List Char) : Prop :=
  gap cs = ([], cs)

theorem comment?_eq_none (h : ¬['/', '*'] <+: cs) : comment? cs = none := by
  unfold comment?
  split
  next inner => exact absurd ⟨inner, rfl⟩ h
  next => rfl

theorem gap_of_isGapChar (h : isGapChar x = true) : gap (x :: cs) = (x :: (gap cs).1, (gap cs).2) := by
  rw [gap, if_pos h]

theorem solid_nil : Solid [] := by
  rw [Solid, gap]

theorem solid_cons (hx : isGapChar x = false) (h : comment? (x :: cs) = none) : Solid (x :: cs) := by
  rw [Solid, gap, if_neg (by simp [hx])]
  split
  next closed => simp [h] at closed
  next => rfl

theorem solid_of_comment? (hx : ∀ x ∈ cs.head?, isGapChar x = false) (h : comment? cs = none) : Solid cs := by
  cases cs with
  | nil => exact solid_nil
  | cons x cs => exact solid_cons (hx x rfl) h

theorem solid_of_head (hx : ∀ x ∈ cs.head?, isGapChar x = false) (h : ¬['/', '*'] <+: cs) : Solid cs :=
  solid_of_comment? hx (comment?_eq_none h)

theorem solid_colon (cs : List Char) : Solid (':' :: cs) := by
  refine solid_of_head (by simp [isGapChar]) ?_
  rintro ⟨after, he⟩
  simp at he

theorem gap_append (hws : ∀ x ∈ ws, isGapChar x = true) (hs : Solid cs) : gap (ws ++ cs) = (ws, cs) := by
  induction ws with
  | nil => exact hs
  | cons x ws ih =>
    have ih := ih fun y hy => hws y (List.mem_cons_of_mem _ hy)
    rw [List.cons_append, gap_of_isGapChar (hws x (List.mem_cons_self ..)), ih]

theorem commentEnd_append {body after : List Char} (h : commentEnd cs = some (body, after)) : body ++ after = cs := by
  fun_induction commentEnd cs generalizing body after with
  | case1 => simp at h
  | case2 rest =>
    obtain ⟨rfl, rfl⟩ : ['*', '/'] = body ∧ rest = after := by simpa using h
    rfl
  | case3 x rest _ body' after' closed ih =>
    obtain ⟨rfl, rfl⟩ : x :: body' = body ∧ after' = after := by simpa using h
    rw [List.cons_append, ih closed]
  | case4 => simp at h

theorem comment?_append {body after : List Char} (h : comment? cs = some (body, after)) : body ++ after = cs := by
  unfold comment? at h
  split at h
  next inner =>
    split at h
    next body' after' closed =>
      obtain ⟨rfl, rfl⟩ : '/' :: '*' :: body' = body ∧ after' = after := by simpa using h
      rw [List.cons_append, List.cons_append, commentEnd_append closed]
    next => simp at h
  next => simp at h

theorem gap_split (cs : List Char) : (gap cs).1 ++ (gap cs).2 = cs := by
  fun_induction gap cs with
  | case1 => rfl
  | case2 x rest _ ignored left gapRest ih =>
    rw [gapRest] at ih
    rw [List.cons_append, ih]
  | case3 x rest _ body after closed ignored left gapAfter ih =>
    rw [gapAfter] at ih
    rw [List.append_assoc, ih, comment?_append closed]
  | case4 => rfl

theorem solid_gap (cs : List Char) : Solid (gap cs).2 := by
  fun_induction gap cs with
  | case1 => exact solid_nil
  | case2 x rest _ ignored left gapRest ih => rwa [gapRest] at ih
  | case3 x rest _ body after closed ignored left gapAfter ih => rwa [gapAfter] at ih
  | case4 x rest hx hcomment => exact solid_cons (by simpa using hx) hcomment

theorem Solid.head (h : Solid cs) (hx : x ∈ cs.head?) : isGapChar x = false := by
  cases cs with
  | nil => simp at hx
  | cons y cs =>
    obtain rfl : y = x := by simpa using hx
    by_contra hgap
    rw [Solid, gap_of_isGapChar (by simpa using hgap)] at h
    simp at h

theorem isHeadChar_of_isPropertyChar (h : isPropertyChar x = true) : isHeadChar x = true := by
  simp only [isPropertyChar, Bool.and_eq_true] at h
  exact h.1.1

theorem eq_of_isStop (h : isStop x = true) : x = '{' ∨ x = '}' ∨ x = ';' := by
  simpa [isStop, or_assoc] using h

/-- The text is at its end or goes on with a brace or a semicolon. -/
def AtStop (cs : List Char) : Prop :=
  ∀ x ∈ cs.head?, isStop x = true

theorem atStop_cons (h : isStop x = true) : AtStop (x :: cs) := by
  simpa [AtStop] using h

theorem AtStop.not_head (h : AtStop cs) (hx : x ∈ cs.head?) : isHeadChar x = false := by
  simp [isHeadChar, h x hx]

theorem AtStop.not_keyword (h : AtStop cs) (hx : x ∈ cs.head?) : isKeywordChar x = false := by
  rcases eq_of_isStop (h x hx) with rfl | rfl | rfl <;> decide

theorem AtStop.solid (h : AtStop cs) : Solid cs := by
  refine solid_of_head (fun x hx => ?_) ?_
  · rcases eq_of_isStop (h x hx) with rfl | rfl | rfl <;> decide
  · rintro ⟨after, rfl⟩
    exact absurd (h '/' rfl) (by decide)

namespace Cursor

@[simp] theorem rest_pass (c : Cursor) (taken rest : List Char) : (c.pass taken rest).rest = rest := rfl

theorem pass_nil (h : c.rest = rest) : c.pass [] rest = c := by
  subst h
  rfl

theorem pass_pass (c : Cursor) (taken taken' rest rest' : List Char) :
    (c.pass taken rest).pass taken' rest' = c.pass (taken ++ taken') rest' := by
  simp [pass, List.foldl_append]

theorem skip_eq_pass (h : c.rest = ws ++ rest) (hws : ∀ x ∈ ws, isGapChar x = true) (hs : Solid rest) :
    c.skip = c.pass ws rest := by
  rw [skip, h, gap_append hws hs]

theorem skip_eq_self (h : Solid c.rest) : c.skip = c := by
  rw [skip, show gap c.rest = ([], c.rest) from h, pass_nil rfl]

theorem run_eq_pass {p : Char → Bool} (h : c.rest = taken ++ rest) (ht : ∀ x ∈ taken, p x = true)
    (hr : ∀ x ∈ rest.head?, p x = false) : c.run p = (taken, c.pass taken rest) := by
  have hstop : rest.takeWhile p = [] := by
    cases rest with
    | nil => rfl
    | cons x rest => rw [List.takeWhile_cons_of_neg (by simpa using hr x rfl)]
  rw [run, h, List.takeWhile_append_of_pos ht, List.dropWhile_append_of_pos ht, hstop, List.append_nil,
    Text.dropWhile_eq_self hr]

theorem char?_eq_pass (h : c.rest = x :: rest) : c.char? x = some (c.pass [x] rest) := by
  rw [char?, h]
  exact if_pos rfl

theorem char?_eq_none (h : x ∉ c.rest.head?) : c.char? x = none := by
  rw [char?]
  split
  next => rfl
  next first rest hc => exact if_neg fun e => h (by simp [hc, e])

end Cursor

/-- The text starts like an at-rule, with `@` and a character of a name. -/
def beginsAtRule : List Char → Bool
  | '@' :: x :: _ => isKeywordChar x
  | _ => false

theorem beginsAtRule_iff :
    beginsAtRule cs = true ↔ ∃ x rest, cs = '@' :: x :: rest ∧ isKeywordChar x = true := by
  unfold beginsAtRule
  split
  next x rest => simp
  next hno =>
    refine iff_of_false (by simp) ?_
    rintro ⟨x, rest, rfl, -⟩
    exact hno x rest rfl

theorem beginsAtRule_append {a b : List Char} (ha : beginsAtRule a = false) (hne : a ≠ [])
    (hb : ∀ x ∈ b.head?, isKeywordChar x = false) : beginsAtRule (a ++ b) = false := by
  by_contra hbegins
  obtain ⟨x, rest, he, hx⟩ := beginsAtRule_iff.mp (by simpa using hbegins)
  match a, hne with
  | [y], _ =>
    obtain ⟨-, rfl⟩ : y = '@' ∧ b = x :: rest := by simpa using he
    simp [hb x rfl] at hx
  | y :: z :: more, _ =>
    obtain ⟨rfl, rfl, -⟩ : y = '@' ∧ z = x ∧ more ++ b = rest := by simpa using he
    simp [beginsAtRule, hx] at ha

namespace Cursor

variable {name params selector property value : List Char}

theorem keyword?_eq_pass (h : c.rest = '@' :: (name ++ rest)) (hne : name ≠ [])
    (hname : ∀ x ∈ name, isKeywordChar x = true) (hr : ∀ x ∈ rest.head?, isKeywordChar x = false) :
    c.keyword? = some (name, c.pass ('@' :: name) rest) := by
  have hat := char?_eq_pass h
  have hrun := run_eq_pass (c := c.pass ['@'] (name ++ rest)) (rest_pass ..) hname hr
  rw [keyword?, hat]
  simp only [hrun, List.isEmpty_iff, hne, if_false, pass_pass]
  rfl

theorem keyword?_eq_none (h : beginsAtRule c.rest = false) : c.keyword? = none := by
  rw [keyword?]
  split
  next => rfl
  next d hat =>
    rw [char?] at hat
    split at hat
    next => simp at hat
    next first cs hc =>
      split at hat
      next hfirst =>
        obtain rfl := Option.some.inj hat
        refine if_pos ?_
        rw [hc, hfirst] at h
        cases cs with
        | nil => rfl
        | cons x cs => simpa [run, beginsAtRule, List.takeWhile_cons] using h
      next => simp at hat

theorem atHead?_eq_pass (h : c.rest = '@' :: (name ++ (ws ++ (params ++ rest)))) (hne : name ≠ [])
    (hname : ∀ x ∈ name, isKeywordChar x = true)
    (hnext : ∀ x ∈ (ws ++ (params ++ rest)).head?, isKeywordChar x = false)
    (hws : ∀ x ∈ ws, isGapChar x = true) (hs : Solid (params ++ rest))
    (hparams : ∀ x ∈ params, isHeadChar x = true) (hr : AtStop rest) :
    c.atHead? = some (name, params, c.pass ('@' :: (name ++ (ws ++ params))) rest) := by
  rw [atHead?, keyword?_eq_pass h hne hname hnext]
  have hskip := skip_eq_pass (c := c.pass ('@' :: name) (ws ++ (params ++ rest))) (rest_pass ..) hws hs
  have hrun := run_eq_pass (c := c.pass ('@' :: name ++ ws) (params ++ rest)) (rest_pass ..) hparams
    fun x hx => hr.not_head hx
  simp only [hskip, pass_pass, hrun]
  rw [skip_eq_self (by simpa using hr.solid)]
  simp

theorem atHead?_eq_none (h : beginsAtRule c.rest = false) : c.atHead? = none := by
  rw [atHead?, keyword?_eq_none h]

theorem selector?_eq_pass (h : c.rest = selector ++ rest) (hne : selector ≠ [])
    (hsel : ∀ x ∈ selector, isHeadChar x = true) (hr : AtStop rest) :
    c.selector? = some (selector, c.pass selector rest) := by
  rw [selector?, run_eq_pass h hsel fun x hx => hr.not_head hx]
  simp only [List.isEmpty_iff, hne, if_false]
  rw [skip_eq_self (by simpa using hr.solid)]

theorem selector?_eq_none (h : AtStop c.rest) : c.selector? = none := by
  have hrun := run_eq_pass (List.nil_append c.rest).symm (by simp) fun x hx => h.not_head hx
  rw [selector?, hrun]
  rfl

theorem property?_eq_pass {gap' : List Char} (h : c.rest = property ++ (ws ++ ':' :: (gap' ++ rest)))
    (hne : property ≠ []) (hprop : ∀ x ∈ property, isPropertyChar x = true)
    (hws : ∀ x ∈ ws, isGapChar x = true) (hgap : ∀ x ∈ gap', isGapChar x = true) (hs : Solid rest) :
    c.property? = some (property, c.pass (property ++ (ws ++ ':' :: gap')) rest) := by
  have hnext : ∀ x ∈ (ws ++ ':' :: (gap' ++ rest)).head?, isPropertyChar x = false := by
    intro x hx
    cases ws with
    | nil =>
      obtain rfl : ':' = x := by simpa using hx
      rfl
    | cons y ws =>
      obtain rfl : y = x := by simpa using hx
      simp [isPropertyChar, hws y (List.mem_cons_self ..)]
  have hrun := run_eq_pass h hprop hnext
  have hskip := skip_eq_pass (c := c.pass property (ws ++ ':' :: (gap' ++ rest))) (rest_pass ..) hws (solid_colon _)
  have hchar := char?_eq_pass (c := c.pass (property ++ ws) (':' :: (gap' ++ rest))) (rest_pass ..)
  have hlast := skip_eq_pass (c := c.pass (property ++ ws ++ [':']) (gap' ++ rest)) (rest_pass ..) hgap hs
  rw [property?, hrun]
  simp only [List.isEmpty_iff, hne, if_false, hskip, pass_pass, hchar, hlast]
  simp

theorem property?_eq_none (h : ∀ x ∈ c.rest.head?, isPropertyChar x = false) : c.property? = none := by
  have hrun := run_eq_pass (List.nil_append c.rest).symm (by simp) h
  rw [property?, hrun]
  rfl

theorem property?_eq_none_of_not_colon (h : c.rest = property ++ (ws ++ rest))
    (hprop : ∀ x ∈ property, isPropertyChar x = true) (hws : ∀ x ∈ ws, isGapChar x = true)
    (hnext : ∀ x ∈ (ws ++ rest).head?, isPropertyChar x = false) (hs : Solid rest) (hcolon : ':' ∉ rest.head?) :
    c.property? = none := by
  have hskip := skip_eq_pass (c := c.pass property (ws ++ rest)) (rest_pass ..) hws hs
  have hchar := char?_eq_none (c := (c.pass property (ws ++ rest)).pass ws rest) hcolon
  rw [property?, run_eq_pass h hprop hnext]
  simp only [hskip, hchar]
  split <;> rfl

theorem declaration?_eq_close? {gap' : List Char} (h : c.rest = property ++ (ws ++ ':' :: (gap' ++ (value ++ rest))))
    (hne : property ≠ []) (hprop : ∀ x ∈ property, isPropertyChar x = true)
    (hws : ∀ x ∈ ws, isGapChar x = true) (hgap : ∀ x ∈ gap', isGapChar x = true) (hs : Solid (value ++ rest))
    (hvalue : ∀ x ∈ value, isHeadChar x = true) (hr : AtStop rest) :
    c.declaration? = (c.pass (property ++ (ws ++ ':' :: (gap' ++ value))) rest).close?.map fun d =>
      (property, value, d) := by
  have hproperty := property?_eq_pass h hne hprop hws hgap hs
  have hrun := run_eq_pass (c := c.pass (property ++ (ws ++ ':' :: gap')) (value ++ rest)) (rest_pass ..) hvalue
    fun x hx => hr.not_head hx
  rw [declaration?, hproperty]
  simp only [hrun, pass_pass]
  rw [skip_eq_self (by simpa using hr.solid)]
  simp only [List.append_assoc, List.cons_append]
  cases (c.pass (property ++ (ws ++ ':' :: (gap' ++ value))) rest).close? <;> rfl

theorem close?_semicolon (h : c.rest = ';' :: rest) : c.close? = some (c.pass [';'] rest) := by
  rw [close?, h]
  rfl

end Cursor

end StyleMixins.Sheet
