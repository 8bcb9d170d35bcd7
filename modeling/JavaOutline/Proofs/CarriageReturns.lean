import JavaOutline.File.Read
import JavaOutline.Proofs.Reader

/-! # Carriage returns at the ends of lines

    A carriage return before a line end is blank space in ordinary code and in a
    comment, but in a literal it is a character, and between type arguments it is
    a space.  This file says what becomes of the tokens of a source when every
    line end gets one:

    * `Reader.withReturn` is what it does to the last word of a line, and nothing
      else changes (`Reader.read_return`);
    * `Reader.ReturnCounts` says when it changes that word at all;
    * the tokens stay the same if and only if it does so at no line end
      (`Reader.tokens_withReturns`);
    * reading a file takes all these carriage returns away (`newlines_withReturns`). -/

namespace JavaOutline

open Source Text

/-! ## Texts with carriage returns -/

/-- The text with a carriage return before every line end. -/
def withReturns (cs : List Char) : List Char :=
  cs.flatMap fun c => if c = '\n' then ['\r', '\n'] else [c]

theorem withReturns_of_not_mem {l : List Char} (h : '\n' ∉ l) : withReturns l = l := by
  induction l with
  | nil => rfl
  | cons c l ih =>
      rw [List.mem_cons, not_or] at h
      rw [withReturns, List.flatMap_cons, if_neg fun hc => h.1 hc.symm]
      exact congrArg (c :: ·) (ih h.2)

theorem withReturns_append_newline {l : List Char} (h : '\n' ∉ l) (t : List Char) :
    withReturns (l ++ '\n' :: t) = l ++ '\r' :: '\n' :: withReturns t := by
  rw [withReturns, List.flatMap_append]
  exact congrArg (· ++ _) (withReturns_of_not_mem h)

/-- Reading a file takes the carriage returns away. -/
theorem newlines_withReturns {cs : List Char} (h : '\r' ∉ cs) :
    newlines (withReturns cs) = cs := by
  induction cs with
  | nil => rfl
  | cons c cs ih =>
      rw [List.mem_cons, not_or] at h
      rw [withReturns, List.flatMap_cons]
      by_cases hc : c = '\n'
      · rw [if_pos hc, hc]
        exact congrArg ('\n' :: ·) (ih h.2)
      · rw [if_neg hc]
        show newlines (c :: withReturns cs) = c :: cs
        rw [newlines, ih h.2]
        · intro _ hr
          exact absurd hr.symm h.1
        · intro hr
          exact absurd hr.symm h.1

/-- Texts are lines, one after the other. -/
theorem Source.line_induction {P : List Char → Prop} (last : ∀ l, '\n' ∉ l → P l)
    (line : ∀ l t, '\n' ∉ l → P t → P (l ++ '\n' :: t)) (t : List Char) : P t := by
  induction hk : t.length using Nat.strongRecOn generalizing t with
  | ind k ih =>
      obtain ⟨l, t, rfl, hl, rfl | ⟨r, rfl⟩⟩ := exists_first_line t
      · rw [List.append_nil]
        exact last l hl
      · refine line l r hl (ih r.length ?_ r rfl)
        rw [← hk, List.length_append, List.length_cons]
        omega

/-- The line ends of a text are the first one and those after it. -/
theorem Source.forall_line_ends {l t : List Char} (hl : '\n' ∉ l)
    {P : List Char → Prop} :
    (∀ a b, l ++ '\n' :: t = a ++ '\n' :: b → P a)
      ↔ P l ∧ ∀ a b, t = a ++ '\n' :: b → P (l ++ '\n' :: a) := by
  constructor
  · intro h
    refine ⟨h l t rfl, fun a b hab => h _ b ?_⟩
    rw [hab, List.append_assoc]
    rfl
  · rintro ⟨hfirst, hrest⟩ a b hab
    rcases List.append_eq_append_iff.mp hab with ⟨c, rfl, hc⟩ | ⟨c, rfl, hc⟩
    · cases c with
      | nil =>
          rw [List.append_nil]
          exact hfirst
      | cons d c =>
          obtain ⟨rfl, rfl⟩ := List.cons.inj hc
          exact hrest c b rfl
    · cases c with
      | nil =>
          rw [List.append_nil] at hfirst
          exact hfirst
      | cons d c =>
          obtain ⟨rfl, -⟩ := List.cons.inj hc
          exact absurd (by simp) hl

/-! ## The piece that a carriage return is -/

/-- The piece that a carriage return is. -/
def Source.Mode.returnPiece : Mode → Piece
  | .code => .code '\r'
  | .lineComment => .comment '\r'
  | .blockComment => .comment '\r'
  | .string => .literal '\r'
  | .character => .literal '\r'
  | .textBlock => .literal '\r'

theorem Source.pieces_nil (m : Mode) : pieces m [] = ([], m) := by
  rw [pieces]

theorem Source.pieces_cons (m : Mode) (c : Char) (l : List Char) :
    pieces m (c :: l)
      = ((cut m c l).pieces ++ (pieces (cut m c l).mode (cut m c l).rest).1,
          (pieces (cut m c l).mode (cut m c l).rest).2) := by
  rw [pieces]

/-- A carriage return at the end of a line is a piece of its own, even after a
    backslash. -/
theorem Source.pieces_return (m : Mode) (l : List Char) :
    pieces m (l ++ ['\r'])
      = ((pieces m l).1 ++ [(pieces m l).2.returnPiece], (pieces m l).2) := by
  fun_induction pieces m l with
  | case1 m =>
      have hcut : cut m '\r' [] = ⟨[m.returnPiece], m, []⟩ := by cases m <;> rfl
      rw [List.nil_append, pieces_cons, hcut, pieces_nil]
      rfl
  | case2 m c l k ps m' hrec ih =>
      rw [hrec] at ih
      rw [List.cons_append, pieces_cons]
      by_cases hesc : l = [] ∧ c = '\\' ∧ m.isLiteral = true
      · -- the backslash takes the carriage return with it
        obtain ⟨rfl, rfl, hm⟩ := hesc
        have hcut : k = ⟨[.literal '\\'], m, []⟩
            ∧ cut m '\\' ['\r'] = ⟨[.literal '\\', m.returnPiece], m, []⟩ := by
          cases m with
          | string | character | textBlock => exact ⟨rfl, rfl⟩
          | code | lineComment | blockComment => cases hm
        rw [hcut.1, pieces_nil] at hrec
        obtain ⟨rfl, rfl⟩ := Prod.mk.inj hrec
        rw [List.nil_append, hcut.1, hcut.2, pieces_nil]
        rfl
      · have hcut : cut m c (l ++ ['\r']) = { k with rest := k.rest ++ ['\r'] } := by
          refine cut_append m c l ['\r']
            (inert_cons (by decide) (by decide) (by decide)) ?_
          intro hl hc hm
          exact absurd ⟨hl, hc, hm⟩ hesc
        rw [hcut]
        show (k.pieces ++ (pieces k.mode (k.rest ++ ['\r'])).1,
          (pieces k.mode (k.rest ++ ['\r'])).2) = _
        rw [ih, List.append_assoc]

/-! ## The last word of a line -/

namespace Gather

/-- The last word of a line that a carriage return follows. -/
def withReturn (m : Mode) (g : Gather) : Gather :=
  if m.isLiteral then g.take '\r'
  else if m = .code ∧ g.angle ≠ 0 then g.argumentBlank
  else g

/-- A carriage return ends the word, or joins it. -/
theorem step_return (extra : List String) (n : Nat) (m : Mode) (g : Gather) :
    (g.step extra n m.returnPiece).1.depth = g.depth
      ∧ (g.step extra n m.returnPiece).2
          ++ (g.step extra n m.returnPiece).1.wordToken extra n
        = (g.withReturn m).wordToken extra n := by
  have htake : ∀ c, (g.take c).depth = g.depth := by
    intro c
    rw [take]
    split <;> rfl
  have hclear : g.wordToken extra n ++ g.clear.wordToken extra n
      = g.wordToken extra n := List.append_nil _
  cases m with
  | string | character | textBlock => exact ⟨htake '\r', rfl⟩
  | lineComment | blockComment => exact ⟨rfl, hclear⟩
  | code =>
      have hstep : g.step extra n (Mode.returnPiece .code)
          = if g.angle = 0 then (g.clear, g.wordToken extra n)
            else (g.argumentBlank, []) := rfl
      have hliteral : ¬ Mode.isLiteral .code = true := Bool.false_ne_true
      rw [hstep, withReturn, if_neg hliteral]
      by_cases ha : g.angle = 0
      · rw [if_pos ha, if_neg fun h => h.2 ha]
        exact ⟨rfl, hclear⟩
      · rw [if_neg ha, if_pos ⟨rfl, ha⟩]
        refine ⟨?_, rfl⟩
        rw [argumentBlank]
        split <;> first | rfl | exact htake ' '

end Gather

namespace Reader

variable {extra : List String} {r : Reader}

/-- The reader at the end of a line that a carriage return follows. -/
def withReturn (r : Reader) : Reader :=
  { r with gather := r.gather.withReturn r.mode }

/-- A carriage return after the text would join its last word: words count there,
    and a literal is open, or type arguments that a space can follow. -/
structure ReturnCounts (r : Reader) : Prop where
  capturing : r.gather.capturing = true
  joins : r.mode.isLiteral = true
    ∨ (r.mode = .code ∧ r.gather.angle ≠ 0
      ∧ ∃ c w, r.gather.word = c :: w ∧ c ≠ '<' ∧ c ≠ ' ')

theorem ReturnCounts.withReturn (h : r.ReturnCounts) :
    ∃ c, (c = '\r' ∨ c = ' ')
      ∧ r.withReturn = { r with gather := { r.gather with word := c :: r.gather.word } } := by
  rw [Reader.withReturn, Gather.withReturn]
  rcases h.joins with hm | ⟨hm, ha, c, w, hw, hopen, hspace⟩
  · rw [if_pos hm, Gather.take_capturing h.capturing]
    exact ⟨'\r', .inl rfl, rfl⟩
  · have hblank : r.gather.argumentBlank = r.gather.take ' ' := by
      rw [Gather.argumentBlank, hw]
      split
      · next heq => cases heq
      · next heq =>
          cases heq
          exact absurd rfl hopen
      · next heq =>
          cases heq
          exact absurd rfl hspace
      · rfl
    have hliteral : ¬ r.mode.isLiteral = true := by
      rw [hm]
      decide
    rw [if_neg hliteral, if_pos ⟨hm, ha⟩, hblank, Gather.take_capturing h.capturing]
    exact ⟨' ', .inr rfl, rfl⟩

theorem withReturn_of_not (h : ¬ r.ReturnCounts) : r.withReturn = r := by
  have htake : r.gather.capturing = false → ∀ c, r.gather.take c = r.gather := by
    intro hcapturing c
    rw [Gather.take, hcapturing]
    rfl
  have hgather : r.gather.withReturn r.mode = r.gather := by
    rw [Gather.withReturn]
    split
    · next hm =>
        refine htake (Bool.eq_false_iff.mpr fun hcapturing => ?_) '\r'
        exact h ⟨hcapturing, .inl hm⟩
    · split
      · next hcode =>
          rw [Gather.argumentBlank]
          split
          · rfl
          · rfl
          · rfl
          · next hnil hopen hspace =>
              refine htake (Bool.eq_false_iff.mpr fun hcapturing => ?_) ' '
              obtain ⟨c, w, hw⟩ := List.exists_cons_of_ne_nil hnil
              refine h ⟨hcapturing, .inr ⟨hcode.1, hcode.2, c, w, hw, ?_, ?_⟩⟩
              · rintro rfl
                exact hopen w hw
              · rintro rfl
                exact hspace w hw
      · rfl
  rw [withReturn, hgather]

end Reader

/-! ## The tokens of a line -/

/-- A carriage return is no part of the text of its line. -/
theorem Text.trimChars_append_return (l : List Char) :
    trimChars (l ++ ['\r']) = trimChars l := by
  have hblank : isBlank '\r' = true := by decide
  rw [trimChars, trimChars, trimFront, trimFront, List.dropWhile_append]
  split
  · next hempty =>
      rw [List.isEmpty_iff.mp hempty, List.dropWhile_cons_of_pos hblank]
      rfl
  · rw [trimBack, trimBack, List.reverse_append]
    show (List.dropWhile isBlank ('\r' :: _)).reverse = _
    rw [List.dropWhile_cons_of_pos hblank]
    rfl

namespace Reader

variable (extra : List String) (r : Reader)

/-- **A carriage return before a line end changes at most the last word of the
    line.** -/
theorem read_return {l : List Char} (hl : '\n' ∉ l) (t : List Char) :
    r.read extra (l ++ '\r' :: '\n' :: t)
      = prepend ((r.read extra l).2 ++ (r.read extra l).1.withReturn.lineEnd extra)
          ((r.read extra l).1.nextLine.read extra t) := by
  have hl' : '\n' ∉ l ++ ['\r'] := by simp [hl]
  let g := (r.gather.steps extra r.line (pieces r.mode l).1).1
  let p := (pieces r.mode l).2.returnPiece
  -- the line without and with the carriage return
  have hread : r.read extra l
      = ({ r with text := l.reverse ++ r.text, mode := (pieces r.mode l).2, gather := g },
          (r.gather.steps extra r.line (pieces r.mode l).1).2) :=
    read_of_not_mem extra r hl
  have hread' : r.read extra (l ++ ['\r'])
      = ({ r with text := '\r' :: (l.reverse ++ r.text), mode := (pieces r.mode l).2,
                  gather := (g.step extra r.line p).1 },
          (r.gather.steps extra r.line (pieces r.mode l).1).2
            ++ (g.step extra r.line p).2) := by
    rw [read_of_not_mem extra r hl', pieces_return, Gather.steps_append,
      Gather.steps_singleton, List.reverse_append]
    rfl
  obtain ⟨hdepth, hword⟩ := g.step_return extra r.line (pieces r.mode l).2
  have hnext : (r.read extra (l ++ ['\r'])).1.nextLine = (r.read extra l).1.nextLine := by
    rw [hread, hread', nextLine, nextLine]
    exact congrArg (fun d => atLine (r.line + 1) ⟨_, d⟩) hdepth
  have hsign : Token.sign r.line ('\r' :: (l.reverse ++ r.text)).reverse
      = Token.sign r.line (l.reverse ++ r.text).reverse := by
    rw [List.reverse_cons, Token.sign, trimChars_append_return]
    rfl
  have hend : (r.read extra (l ++ ['\r'])).2
        ++ (r.read extra (l ++ ['\r'])).1.lineEnd extra
      = (r.read extra l).2 ++ (r.read extra l).1.withReturn.lineEnd extra := by
    rw [hread, hread', lineEnd, lineEnd, close, close]
    show _ ++ (g.step extra r.line p).2 ++ ((g.step extra r.line p).1.wordToken extra r.line
        ++ [Token.sign r.line ('\r' :: (l.reverse ++ r.text)).reverse] ++ _)
      = _ ++ ((g.withReturn (pieces r.mode l).2).wordToken extra r.line ++ _ ++ _)
    rw [← hword, hsign]
    simp only [List.append_assoc]
    rfl
  have happend := read_append_newline extra r (l ++ ['\r']) t
  rw [hnext, hend, List.append_assoc] at happend
  exact happend

/-- The tokens of a line that a carriage return ends, and of the text after it. -/
theorem tokens_return {l : List Char} (hl : '\n' ∉ l) (t : List Char) :
    r.tokens extra (l ++ '\r' :: '\n' :: t)
      = (r.read extra l).2 ++ (r.read extra l).1.withReturn.lineEnd extra
          ++ (r.read extra l).1.nextLine.tokens extra t :=
  tokens_of_read (read_return extra r hl t)

/-- A longer last word shows in the tokens. -/
theorem ReturnCounts.lineEnd_ne {r : Reader} (h : r.ReturnCounts) (ts us : List Token) :
    r.withReturn.lineEnd extra ++ ts ≠ r.lineEnd extra ++ us := by
  obtain ⟨c, -, hr⟩ := h.withReturn
  rw [hr, lineEnd, lineEnd, close, close, Gather.wordToken, Gather.wordToken,
    if_neg (by simp)]
  intro heq
  split at heq
  · -- there is no word otherwise, and a word is no line text
    have hkind : (Token.ofWord extra r.line _).kind = .sign :=
      congrArg Token.kind (List.cons.inj heq).1
    rw [Token.ofWord] at hkind
    dsimp only at hkind
    split at hkind <;> cases hkind
  · have htext : String.ofList (c :: r.gather.word).reverse
        = String.ofList r.gather.word.reverse :=
      congrArg Token.text (List.cons.inj heq).1
    have hlength := congrArg (fun s => s.toList.length) htext
    simp at hlength

/-- **The tokens stay the same if and only if no carriage return counts.** -/
theorem tokens_withReturns (t : List Char) :
    r.tokens extra (withReturns t) = r.tokens extra t
      ↔ ∀ a b, t = a ++ '\n' :: b → ¬ (r.read extra a).1.ReturnCounts := by
  induction t using Source.line_induction generalizing r with
  | last l hl =>
      rw [withReturns_of_not_mem hl]
      refine ⟨fun _ a b hab => ?_, fun _ => rfl⟩
      rw [hab] at hl
      exact absurd (by simp) hl
  | line l t hl ih =>
      have hrest : ∀ a, (r.read extra (l ++ '\n' :: a)).1
          = ((r.read extra l).1.nextLine.read extra a).1 := by
        intro a
        rw [read_append_newline, prepend_fst]
      rw [withReturns_append_newline hl, tokens_return extra r hl,
        tokens_of_read (read_append_newline extra r l t), List.append_assoc,
        List.append_assoc, List.append_cancel_left_eq,
        forall_line_ends hl (P := fun a => ¬ (r.read extra a).1.ReturnCounts)]
      simp only [hrest]
      rw [← ih]
      by_cases hcounts : (r.read extra l).1.ReturnCounts
      · exact ⟨fun heq => absurd heq (hcounts.lineEnd_ne extra _ _),
          fun h => absurd hcounts h.1⟩
      · rw [withReturn_of_not hcounts, List.append_cancel_left_eq]
        exact ⟨fun heq => ⟨hcounts, heq⟩, fun h => h.2⟩

end Reader

end JavaOutline
