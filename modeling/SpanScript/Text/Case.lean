import SpanScript.Text.CaseTable

/-!
# Letter case

The full case mappings of a text: a character may become several, and the
Greek capital sigma becomes a final sigma at the end of a word.  A sigma is at
the end of a word when, looking past ignorable characters, a cased character
comes before it and none comes after it.
-/

namespace SpanScript.Case

/-- The shift of a code point in a list of runs. -/
def shift? (runs : List Run) (n : Nat) : Option Int :=
  (runs.find? fun (first, last, step, _) =>
    first ≤ n && n ≤ last && (n - first) % step == 0).map fun (_, _, _, d) => d

/-- What a character becomes under a table of single and of special mappings. -/
def convert (runs : List Run) (special : List (Nat × List Nat)) (c : Char) : List Char :=
  match special.lookup c.toNat with
  | some cs => cs.map Char.ofNat
  | none =>
    match shift? runs c.toNat with
    | some d => [Char.ofNat (c.toNat + d).toNat]
    | none => [c]

def inRanges (ranges : List (Nat × Nat)) (c : Char) : Bool :=
  ranges.any fun (first, last) => first ≤ c.toNat && c.toNat ≤ last

/-- A character that a sigma looks past. -/
def isIgnorable (c : Char) : Bool := inRanges ignorableRanges c

/-- A letter with case at which a sigma stops looking. -/
def isCased (c : Char) : Bool := inRanges casedRanges c

/-- Whether the first character that is not ignorable is cased. -/
def meetsCased (cs : List Char) : Bool :=
  match cs.dropWhile isIgnorable with
  | c :: _ => isCased c
  | [] => false

/-- The capital sigma and its two small forms. -/
def sigma : Char := Char.ofNat 0x3A3

/-- The small sigma inside a word. -/
def smallSigma : Char := Char.ofNat 0x3C3

/-- The small sigma at the end of a word. -/
def finalSigma : Char := Char.ofNat 0x3C2

def upperChars (cs : List Char) : List Char := cs.flatMap (convert upperRuns upperSpecial)

/-- The lower case of the rest of a text, given what came before it in
reverse. -/
def lowerAfter : List Char → List Char → List Char
  | _, [] => []
  | before, c :: rest =>
    (if c == sigma then
      [if meetsCased before && !meetsCased rest then finalSigma else smallSigma]
    else convert lowerRuns lowerSpecial c) ++ lowerAfter (c :: before) rest

def lowerChars (cs : List Char) : List Char := lowerAfter [] cs

def upper (s : String) : String := String.ofList (upperChars s.toList)

def lower (s : String) : String := String.ofList (lowerChars s.toList)

end SpanScript.Case
