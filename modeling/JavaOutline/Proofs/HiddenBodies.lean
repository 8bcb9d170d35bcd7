import JavaOutline.Outline
import JavaOutline.Proofs.Body
import JavaOutline.Proofs.HiddenLines

/-! # What executable bodies hide

    A body gives no tokens but those of its lines (`Body.read_lines`), and the
    lines inside it bear no words, so their texts are never looked at
    (`Declaration.ofTokens_alike`).  Together: exchanging a body for another
    one with the same number of lines changes neither the outline of a source
    nor the reports about it. -/

namespace JavaOutline

open Source

variable {hidden : Int → Prop}

/-! ## Reading on visible lines -/

namespace Reader

theorem lineEnd_alike (extra : List String) {r : Reader}
    (hn : ¬ hidden r.line) {ts us : List Token}
    (h : Alike hidden (r.line + 1 : Nat) ts us) :
    Alike hidden r.line (r.lineEnd extra ++ ts) (r.lineEnd extra ++ us) := by
  simp only [lineEnd, close, List.append_assoc]
  exact Alike.tokens (.sign r.line (fun _ => rfl) (.lineNumber (r.line + 1) h))
    hn (fun t ht => (r.gather.wordToken_onLine extra r.line t ht).inLine.not_line)

/-- The tokens of a text whose lines are all visible. -/
theorem read_alike (extra : List String) (r : Reader) (cs : List Char)
    (hvis : ∀ m : Nat, r.line ≤ m → m ≤ (r.read extra cs).1.line → ¬ hidden m)
    {ts us : List Token} (h : Alike hidden (r.read extra cs).1.line ts us) :
    Alike hidden r.line ((r.read extra cs).2 ++ ts)
      ((r.read extra cs).2 ++ us) := by
  have hle := r.read_line extra cs
  have hn : ¬ hidden r.line := hvis r.line (Nat.le_refl _) (by omega)
  fun_induction read extra r cs with
  | case1 r => exact h
  | case2 r cs ih =>
      simp only [prepend_fst, prepend_snd] at *
      have hline := r.nextLine.read_line extra cs
      have hsucc : r.nextLine.line = r.line + 1 := rfl
      rw [List.append_assoc, List.append_assoc]
      apply lineEnd_alike extra hn
      apply ih _ h hline (hvis _ (by omega) (by omega))
      intro m hm
      exact hvis m (by omega)
  | case3 r c cs hc k ih =>
      simp only [prepend_fst, prepend_snd] at *
      rw [List.append_assoc, List.append_assoc]
      exact Alike.tokens (ih hvis h ((r.take extra k).read_line extra k.rest) hn)
        hn (fun t ht =>
          (r.gather.steps_onLine extra r.line k.pieces t ht).inLine.not_line)

theorem tokens_alike (extra : List String) (r : Reader) (cs : List Char)
    (hvis : ∀ m : Nat, r.line ≤ m → m ≤ (r.read extra cs).1.line → ¬ hidden m) :
    Alike hidden r.line (r.tokens extra cs) (r.tokens extra cs) := by
  have hle := r.read_line extra cs
  refine r.read_alike extra cs hvis ?_
  exact Alike.tokens (.sign _ (fun _ => rfl) .nil) (hvis _ (by omega) (by omega))
    (fun t ht => (Gather.wordToken_onLine extra _ _ t ht).inLine.not_line)

end Reader

/-- Lines that are all hidden may have any texts. -/
theorem lineEnds_alike {n : Nat} {texts texts' : List (List Char)}
    (hlen : texts.length = texts'.length)
    (hhid : ∀ m : Nat, n ≤ m → m < n + texts.length → hidden m)
    {ts us : List Token} (h : Alike hidden (n + texts.length : Nat) ts us) :
    Alike hidden n (lineEnds n texts ++ ts) (lineEnds n texts' ++ us) := by
  induction texts generalizing n texts' with
  | nil =>
      rw [List.eq_nil_of_length_eq_zero hlen.symm]
      exact h
  | cons l ls ih =>
      cases texts' with
      | nil => exact nomatch hlen
      | cons k ks =>
          have hn : hidden n := hhid n (Nat.le_refl n) (by simp)
          refine .sign n (fun h => absurd hn h) (.lineNumber (n + 1) ?_)
          apply ih (Nat.succ.inj hlen)
          · intro m h1 h2
            exact hhid m (by omega) (by simp; omega)
          · rw [show n + 1 + ls.length = n + (l :: ls).length by simp; omega]
            exact h

/-! ## Exchanging a body -/

/-- Where the reading stands after the text `p`. -/
def Reader.after (p : String) : Reader := (Reader.read [] {} p.toList).1

/-- A text that starts and ends with a line end. -/
structure OnOwnLines (b : List Char) : Prop where
  first : b.head? = some '\n'
  last : b.getLast? = some '\n'

/-- The tokens of a text and of the opening brace after it, up to the end of
    that line. -/
def tokensBefore (extra : List String) (p : String) : List Token :=
  (Reader.read extra {} p.toList).2
    ++ ((Reader.after p).gather.delimiter extra (Reader.after p).line
        .statementEnd "\x7b").2
    ++ (Reader.after p).opened.lineEnd extra

/-- The tokens of a closing brace and a text, on the line that is `k` lines
    below the end of `p`. -/
def tokensAfter (extra : List String) (p : String) (k : Nat) (q : String) :
    List Token :=
  (Reader.atLine ((Reader.after p).line + k)
    ⟨.code, (Reader.after p).gather.depth + 1⟩).tokens extra ('}' :: q.toList)

/-- The tokens of a source with a body in it: only the texts of the lines
    inside the body depend on what the body is. -/
theorem tokenize_body (extra : List String) {p : String}
    (hm : (Reader.after p).mode = .code)
    (hd : 1 ≤ (Reader.after p).gather.depth) {b : String}
    (hb : Body b.toList) (hown : OnOwnLines b.toList) (q : String) :
    ∃ texts : List (List Char), texts.length + 1 = b.toList.count '\n' ∧
      tokenize (p ++ "\x7b" ++ b ++ "\x7d" ++ q) extra
        = Token.lineNumber 1 :: (tokensBefore extra p
            ++ (lineEnds ((Reader.after p).line + 1) texts
            ++ tokensAfter extra p (b.toList.count '\n') q)) := by
  have hafter : (Reader.read extra {} p.toList).1 = Reader.after p :=
    Reader.read_fst extra [] {} p.toList
  have hsettled : (Reader.after p).gather.Settled :=
    Reader.read_settled [] {} (fun _ => rfl) p.toList
  have hdeep : (Reader.after p).opened.gather.Deep :=
    ⟨Nat.succ_le_succ hd, rfl⟩
  obtain ⟨texts, hlen, hread⟩ :=
    hb.read_lines hown.first hown.last (r := (Reader.after p).opened) hm hdeep
  refine ⟨texts, hlen, ?_⟩
  have hsource : (p ++ "\x7b" ++ b ++ "\x7d" ++ q).toList
      = p.toList ++ '{' :: (b.toList ++ '}' :: q.toList) := by
    simp
  have hp : Reader.read extra {} (p.toList ++ '{' :: (b.toList ++ '}' :: q.toList))
      = prepend (Reader.read extra {} p.toList).2
          ((Reader.after p).read extra ('{' :: (b.toList ++ '}' :: q.toList))) := by
    rw [Reader.read_append extra {} p.toList _
      (inert_cons (by decide) (by decide) (by decide))
      (.inr (.inr (by rw [hafter, hm]; rfl))), hafter]
  rw [tokenize_eq_read, hsource, Reader.tokens_of_read hp,
    Reader.tokens_of_read (read_openBrace extra hm hsettled _),
    Reader.tokens_of_read (hread _), tokensBefore]
  simp only [List.append_assoc]
  rfl

/-- Every line up to the opening brace is visible. -/
theorem tokensBefore_alike (extra : List String) (p : String)
    (hvis : ∀ m : Nat, m ≤ (Reader.after p).line → ¬ hidden m)
    {ts us : List Token}
    (h : Alike hidden ((Reader.after p).line + 1 : Nat) ts us) :
    Alike hidden 1 (tokensBefore extra p ++ ts)
      (tokensBefore extra p ++ us) := by
  have hafter : (Reader.read extra {} p.toList).1 = Reader.after p :=
    Reader.read_fst extra [] {} p.toList
  have hn := hvis _ (Nat.le_refl _)
  simp only [tokensBefore, List.append_assoc]
  refine Reader.read_alike extra {} p.toList ?_ ?_
  · intro m _ hm
    rw [hafter] at hm
    exact hvis m hm
  · rw [hafter]
    exact Alike.tokens
      (Reader.lineEnd_alike extra (r := (Reader.after p).opened) hn h) hn
      (fun t ht => (Gather.delimiter_onLine extra _ _ (c := '{') rfl t
        ht).inLine.not_line)

/-- Every line from the closing brace on is visible. -/
theorem tokensAfter_alike (extra : List String) (p : String) (k : Nat)
    (q : String) (hvis : ∀ m : Nat, (Reader.after p).line + k ≤ m → ¬ hidden m) :
    Alike hidden ((Reader.after p).line + k : Nat) (tokensAfter extra p k q)
      (tokensAfter extra p k q) :=
  Reader.tokens_alike extra (Reader.atLine ((Reader.after p).line + k) _)
    ('}' :: q.toList) fun m hm _ => hvis m hm

/-- **Executable bodies never influence the result**: where words have ceased
    to count, a body on lines of its own can be exchanged for any other one
    with as many lines, and both the outline and the reports stay the same. -/
theorem outline_body_irrelevant (settings : Settings) (p q : String)
    {b₁ b₂ : String} (hm : (Reader.after p).mode = .code)
    (hd : 1 ≤ (Reader.after p).gather.depth)
    (hb₁ : Body b₁.toList) (hb₂ : Body b₂.toList)
    (hown₁ : OnOwnLines b₁.toList) (hown₂ : OnOwnLines b₂.toList)
    (hlines : b₁.toList.count '\n' = b₂.toList.count '\n') :
    outline (p ++ "\x7b" ++ b₁ ++ "\x7d" ++ q) settings
      = outline (p ++ "\x7b" ++ b₂ ++ "\x7d" ++ q) settings := by
  obtain ⟨texts₁, hlen₁, htokens₁⟩ :=
    tokenize_body settings.ignoredKeywords hm hd hb₁ hown₁ q
  obtain ⟨texts₂, hlen₂, htokens₂⟩ :=
    tokenize_body settings.ignoredKeywords hm hd hb₂ hown₂ q
  rw [outline, outline, htokens₁, htokens₂, hlines]
  -- hidden are the lines strictly between the two braces
  let n := (Reader.after p).line
  let k := b₂.toList.count '\n'
  have halike : Alike (fun m => (n : Int) < m ∧ m < (n + k : Nat)) 1
      (Token.lineNumber 1 :: (tokensBefore settings.ignoredKeywords p
        ++ (lineEnds (n + 1) texts₂
        ++ tokensAfter settings.ignoredKeywords p k q)))
      (Token.lineNumber 1 :: (tokensBefore settings.ignoredKeywords p
        ++ (lineEnds (n + 1) texts₁
        ++ tokensAfter settings.ignoredKeywords p k q))) := by
    refine .lineNumber 1 (tokensBefore_alike _ p ?_ (lineEnds_alike ?_ ?_ ?_))
    · intro m hm h
      exact absurd h.1 (by omega)
    · omega
    · intro m h1 h2
      exact ⟨by omega, by omega⟩
    · rw [show n + 1 + texts₂.length = n + k by omega]
      refine tokensAfter_alike _ p k q ?_
      intro m hm h
      exact absurd h.2 (by omega)
  exact Declaration.ofTokens_alike halike

/-- A brace in a string and a brace in a comment are the same to an
    outline. -/
theorem outline_body_string_comment :
    outline ("class C \x7b\n void f() " ++ "\x7b" ++ "\n\"\x7d\";\n" ++ "\x7d"
        ++ "\n int n;\n\x7d") { ignoredKeywords := ["int"] }
      = outline ("class C \x7b\n void f() " ++ "\x7b" ++ "\n//\x7b\n" ++ "\x7d"
        ++ "\n int n;\n\x7d") { ignoredKeywords := ["int"] } := by
  apply outline_body_irrelevant
  · decide +kernel
  · decide +kernel
  · show Body ['\n', '"', '}', '"', ';', '\n']
    refine .newline (.string (s := ['}']) (b := [';', '\n']) ?_ (by simp) ?_)
    · exact .char (by decide) (by decide) (by decide) .nil
    · exact .plain rfl (.newline .nil)
  · show Body ['\n', '/', '/', '{', '\n']
    exact .newline (.lineComment (s := ['{']) (b := []) (by decide) .nil)
  · exact ⟨rfl, rfl⟩
  · exact ⟨rfl, rfl⟩
  · rfl

end JavaOutline
