import JavaOutline.Proofs.Body

/-! # In which mode a token is made

    Every reading step makes its tokens in the mode in which it starts.  This
    file records that mode with each token: `emissions` is the list of tokens
    of a source, each with the mode and the comment opener that were current
    when it was made (`map_token_emissions`).

    `BiteShape` says what a step can read.  It is all that later proofs need
    to know about steps. -/

namespace JavaOutline

open Source

/-! ## What a step can read -/

namespace Source

/-- The mode that an opener leads to. -/
def Opener.mode : Opener → Mode
  | .line => .lineComment
  | .block => .blockComment
  | .doc => .blockComment

/-- The steps that start in a mode at a character. -/
inductive BiteShape : Mode → Char → Cut → Prop where
  | opener (o : Opener) (r : List Char) :
      BiteShape .code '/' ⟨[.opener o], o.mode, r⟩
  /-- Ordinary text; a slash does not stand before what would make it an
      opener. -/
  | code (c : Char) (r : List Char)
      (h : c = '/' → r.head? ≠ some '/' ∧ r.head? ≠ some '*') :
      BiteShape .code c ⟨[.code c], .code, r⟩
  /-- The start of a literal. -/
  | quote {m : Mode} (q : Char) (cs r : List Char) (hq : q = '"' ∨ q = '\'')
      (hm : m.isLiteral = true) :
      BiteShape .code q ⟨(q :: cs).map .literal, m, r⟩
  | lineComment (c : Char) (r : List Char) :
      BiteShape .lineComment c ⟨[.comment c], .lineComment, r⟩
  /-- A character of a block comment; a star does not stand before a slash. -/
  | blockComment (c : Char) (r : List Char)
      (h : c = '*' → r.head? ≠ some '/') :
      BiteShape .blockComment c ⟨[.comment c], .blockComment, r⟩
  | closer (r : List Char) :
      BiteShape .blockComment '*' ⟨[.closer], .code, r⟩
  /-- Characters of a literal, the last of which may close it. -/
  | literal {m m' : Mode} (c : Char) (cs r : List Char)
      (hm : m.isLiteral = true) (hm' : m' = m ∨ m' = .code) :
      BiteShape m c ⟨cs.map .literal, m', r⟩

theorem bite_shape_slash (cs : List Char) :
    BiteShape .code '/' (bite .code '/' cs) := by
  by_cases h1 : cs.head? = some '/'
  · obtain ⟨r, rfl⟩ := List.head?_eq_some_iff.mp h1
    exact .opener .line r
  by_cases h2 : cs.head? = some '*'
  · obtain ⟨r, rfl⟩ := List.head?_eq_some_iff.mp h2
    by_cases h3 : r.head? = some '*'
    · obtain ⟨r, rfl⟩ := List.head?_eq_some_iff.mp h3
      by_cases h4 : r.head? = some '/'
      · obtain ⟨r, rfl⟩ := List.head?_eq_some_iff.mp h4
        exact .opener .block ('*' :: '/' :: r)
      · rw [bite_doc h4]
        exact .opener .doc r
    · rw [bite_block h3]
      exact .opener .block r
  · rw [bite_slash h1 h2]
    exact .code '/' cs (fun _ => ⟨h1, h2⟩)

theorem bite_shape_code (c : Char) (cs : List Char) :
    BiteShape .code c (bite .code c cs) := by
  by_cases h1 : c = '/'
  · subst h1
    exact bite_shape_slash cs
  by_cases h2 : c = '"'
  · subst h2
    by_cases h : ∃ r, cs = '"' :: '"' :: r
    · obtain ⟨r, rfl⟩ := h
      exact .quote '"' ['"', '"'] r (.inl rfl) rfl
    · rw [bite_quote (fun r hr => h ⟨r, hr⟩)]
      exact .quote '"' [] cs (.inl rfl) rfl
  by_cases h3 : c = '\''
  · subst h3
    rw [bite_apostrophe]
    exact .quote '\'' [] cs (.inr rfl) rfl
  · rw [bite_code h1 h2 h3]
    exact .code c cs (fun h => absurd h h1)

theorem bite_shape_blockComment (c : Char) (cs : List Char) :
    BiteShape .blockComment c (bite .blockComment c cs) := by
  by_cases h : c = '*' ∧ cs.head? = some '/'
  · obtain ⟨rfl, hcs⟩ := h
    obtain ⟨r, rfl⟩ := List.head?_eq_some_iff.mp hcs
    exact .closer r
  · have hstar : c = '*' → cs.head? ≠ some '/' := fun hc hcs => h ⟨hc, hcs⟩
    rw [bite_blockComment hstar]
    exact .blockComment c cs hstar

theorem bite_shape_literal {m : Mode} (hm : m.isLiteral = true) (c : Char)
    (cs : List Char) : BiteShape m c (bite m c cs) := by
  -- whatever is cut off in a literal is a list of its characters
  have hcut : ∀ l, ∃ ds : List Char, (cut m c l).pieces = ds.map .literal
      ∧ ((cut m c l).mode = m ∨ (cut m c l).mode = .code) := by
    intro l
    fun_cases cut m c l <;> first
      | exact ⟨[_], rfl, .inl rfl⟩
      | exact ⟨[_], rfl, .inr rfl⟩
      | exact ⟨[_, _], rfl, .inl rfl⟩
      | exact ⟨[_, _, _], rfl, .inr rfl⟩
      | cases hm
  have hshape : ∀ l r, BiteShape m c { cut m c l with rest := r } := by
    intro l r
    obtain ⟨ds, hds, hmode⟩ := hcut l
    show BiteShape m c ⟨(cut m c l).pieces, (cut m c l).mode, r⟩
    rw [hds]
    exact .literal c ds r hm hmode
  fun_cases bite m c cs with
  | case1 r => cases hm
  | case2 m c r => exact hshape [] ('\n' :: r)
  | case3 => exact hshape cs (cut m c cs).rest

/-- Every step has one of the shapes. -/
theorem bite_shape (m : Mode) (c : Char) (cs : List Char) :
    BiteShape m c (bite m c cs) := by
  cases m with
  | code => exact bite_shape_code c cs
  | lineComment =>
      rw [bite_lineComment]
      exact .lineComment c cs
  | blockComment => exact bite_shape_blockComment c cs
  | string => exact bite_shape_literal rfl c cs
  | character => exact bite_shape_literal rfl c cs
  | textBlock => exact bite_shape_literal rfl c cs

/-- The opener that is current after some pieces. -/
def lastOpener (o : Opener) : List Piece → Opener
  | [] => o
  | .opener o' :: ps => lastOpener o' ps
  | _ :: ps => lastOpener o ps

end Source

/-! ## Emissions -/

/-- A token, and in what the reader was when it made it. -/
structure Emission where
  token : Token
  mode : Mode
  /-- The opener of the last comment. -/
  opener : Opener
  deriving DecidableEq, Repr

namespace Reader

/-- The tokens of a text up to the end of the source, as `tokens` gives them,
    each with the mode and the opener at which it was made. -/
def emissions (extra : List String) (r : Reader) (o : Opener) :
    List Char → List Emission
  | [] => (r.close extra).map (⟨·, r.mode, o⟩)
  | c :: cs =>
    if c = '\n' then
      (r.lineEnd extra).map (⟨·, r.mode, o⟩) ++ emissions extra r.nextLine o cs
    else
      let k := bite r.mode c cs
      (r.gather.steps extra r.line k.pieces).2.map (⟨·, r.mode, o⟩)
        ++ emissions extra (r.take extra k) (lastOpener o k.pieces) k.rest
termination_by cs => cs.length
decreasing_by
  · simp
  · have := bite_rest_length r.mode c cs
    simp only [List.length_cons]
    omega

theorem map_token_map (ts : List Token) (m : Mode) (o : Opener) :
    (ts.map (fun t => (⟨t, m, o⟩ : Emission))).map Emission.token = ts := by
  rw [List.map_map]
  exact List.map_id ts

theorem map_token_emissions (extra : List String) (r : Reader) (o : Opener)
    (cs : List Char) :
    (r.emissions extra o cs).map Emission.token = r.tokens extra cs := by
  fun_induction emissions extra r o cs with
  | case1 r o =>
      rw [map_token_map, tokens, read_nil]
      rfl
  | case2 r o cs ih =>
      rw [List.map_append, map_token_map, ih]
      exact (tokens_of_read (read_newline extra r cs)).symm
  | case3 r o c cs hc k ih =>
      rw [List.map_append, map_token_map, ih]
      exact (tokens_of_read (read_cons extra r hc cs)).symm

end Reader

/-- The tokens of a source with the mode in which each was made. -/
def emissions (source : String) (extra : List String) : List Emission :=
  ⟨Token.lineNumber 1, .code, .line⟩
    :: Reader.emissions extra {} .line source.toList

/-- The emissions of a source are its tokens. -/
theorem map_token_emissions (source : String) (extra : List String) :
    (emissions source extra).map Emission.token = tokenize source extra := by
  rw [tokenize_eq_read, emissions, List.map_cons,
    Reader.map_token_emissions extra {} .line source.toList]

end JavaOutline
