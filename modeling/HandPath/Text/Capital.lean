/-!
# HandPath.Text.Capital — capital letters

Full capitals as far as they are letters of ASCII: those of its small letters, of the dotless i, the
long s, the sharp s and the ligatures of Latin small letters. Every other character keeps its place;
its capitals, if it has any, are outside ASCII, so a text compared with a word of ASCII capitals is
equal to it after `capitals` if and only if its full capitals are.
-/

namespace HandPath.Text

def capital (c : Char) : List Char :=
  if 'a' ≤ c ∧ c ≤ 'z' then [c.toUpper]
  else match c with
    | 'ı' => ['I']
    | 'ſ' => ['S']
    | 'ß' => ['S', 'S']
    | 'ﬀ' => ['F', 'F']
    | 'ﬁ' => ['F', 'I']
    | 'ﬂ' => ['F', 'L']
    | 'ﬃ' => ['F', 'F', 'I']
    | 'ﬄ' => ['F', 'F', 'L']
    | 'ﬅ' => ['S', 'T']
    | 'ﬆ' => ['S', 'T']
    | _ => [c]

def capitals (s : String) : String := String.ofList (s.toList.flatMap capital)

end HandPath.Text
