/-!
Text between delimiters: quoted literals and block comments, each cut off after its closing
delimiter.
-/

namespace SchemaScaffold.Text

/-- Splits after the quote that closes a literal. A backslash escapes one character of its line; a
line break may stand in the body of a literal that is allowed several lines. -/
def closeLiteral? (quote : Char) (multiline : Bool) : List Char → Option (List Char × List Char)
  | [] => none
  | ['\\'] => none
  | '\\' :: c :: cs =>
    if c == '\n' then none
    else (closeLiteral? quote multiline cs).map fun (body, rest) => ('\\' :: c :: body, rest)
  | c :: cs =>
    if c == quote then some ([c], cs)
    else if c == '\n' && !multiline then none
    else (closeLiteral? quote multiline cs).map fun (body, rest) => (c :: body, rest)

/-- Splits after the first end of a block comment. -/
def closeComment? : List Char → Option (List Char × List Char)
  | [] => none
  | '*' :: '/' :: cs => some (['*', '/'], cs)
  | c :: cs => (closeComment? cs).map fun (body, rest) => (c :: body, rest)

theorem closeLiteral?_append {quote : Char} {multiline : Bool} {cs body rest : List Char}
    (h : closeLiteral? quote multiline cs = some (body, rest)) : body ++ rest = cs := by
  fun_induction closeLiteral? quote multiline cs generalizing body rest with
  | case1 => simp at h
  | case2 => simp at h
  | case3 => simp at h
  | case4 c cs _ ih =>
    obtain ⟨⟨b, r⟩, hb, he⟩ := Option.map_eq_some_iff.mp h
    have := ih hb
    grind
  | case5 => grind
  | case6 => simp at h
  | case7 c cs _ _ _ _ ih =>
    obtain ⟨⟨b, r⟩, hb, he⟩ := Option.map_eq_some_iff.mp h
    have := ih hb
    grind

theorem closeComment?_append {cs body rest : List Char}
    (h : closeComment? cs = some (body, rest)) : body ++ rest = cs := by
  fun_induction closeComment? cs generalizing body rest with
  | case1 => simp at h
  | case2 => grind
  | case3 c cs _ ih =>
    obtain ⟨⟨b, r⟩, hb, he⟩ := Option.map_eq_some_iff.mp h
    have := ih hb
    grind

end SchemaScaffold.Text
