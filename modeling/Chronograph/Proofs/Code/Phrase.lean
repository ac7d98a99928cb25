import Chronograph.Code.Tree
import Chronograph.Proofs.Decimal.Notation
import Chronograph.Text.Symbol

/-!
# Reading the lines of the averaging function

The tree of a code unit holds its lines as texts.  To say what a line means, it
is read: cut into tokens (`tokens`) and taken apart by a small grammar, as a
phrase (`readPhrase`) or, before a block, as a header (`readHeader`).  The grammar
is that of declarations, updates and returns over maps, iterators and numbers,
and of branches and loops; any other text is not read.

The readers of expressions call each other, and of two calls in a row at least one
takes a token.  So twice the number of tokens bounds the depth.
-/

namespace Chronograph

/-! ## Tokens -/

/-- A token of code. -/
inductive Token where
  | word (text : String)
  | mark (c : Char)
deriving DecidableEq

/-- A colon is part of a word, as it is of a qualified name. -/
def isWordChar (c : Char) : Bool := isSymbolChar c || c == ':'

/-- The token of a word that has been gathered, last character first. -/
def wordToken : List Char → List Token
  | [] => []
  | gathered => [.word (String.ofList gathered.reverse)]

/-- The tokens of a text behind the characters of a word. -/
def tokensBehind (gathered : List Char) : List Char → List Token
  | [] => wordToken gathered
  | c :: rest =>
    if isWordChar c then tokensBehind (c :: gathered) rest
    else wordToken gathered ++ (if c = ' ' then [] else [.mark c]) ++ tokensBehind [] rest

/-- The tokens of a text: words, and every other character but the space on its own. -/
def tokens (text : String) : List Token := tokensBehind [] text.toList

/-! ## Expressions -/

/-- An expression. -/
inductive CodeExpr where
  | name (x : String)
  | numeral (n : Nat)
  /-- The element of a container under a key or at an index. -/
  | element (container : String) (key : CodeExpr)
  | first (pair : CodeExpr)
  | second (pair : CodeExpr)
  /-- What an iterator points to. -/
  | pointee (iterator : CodeExpr)
  | size (container : CodeExpr)
  | isEmpty (container : CodeExpr)
  /-- The iterator past the last entry. -/
  | past (container : CodeExpr)
  | find (container key : CodeExpr)
  | toDouble (e : CodeExpr)
  | unequal (a b : CodeExpr)
deriving DecidableEq

/-- A name or a numeral. -/
def readAtom (word : String) : CodeExpr :=
  if word.toList.all Char.isDigit then .numeral (digitsValue word.toList) else .name word

/-- The tokens behind a mark. -/
def skipMark (c : Char) : List Token → Option (List Token)
  | .mark d :: rest => if c = d then some rest else none
  | _ => none

mutual

/-- An expression, with the tokens behind it. -/
def readExpr : Nat → List Token → Option (CodeExpr × List Token)
  | 0, _ => none
  | fuel + 1, tokens => do
    let (a, rest) ← readTerm fuel tokens
    match rest with
    | .mark '!' :: .mark '=' :: rest => do
      let (b, rest) ← readTerm fuel rest
      return (.unequal a b, rest)
    | rest => return (a, rest)

/-- An expression that is no comparison. -/
def readTerm : Nat → List Token → Option (CodeExpr × List Token)
  | fuel + 1, .word "static_cast" :: .mark '<' :: .word "double" :: .mark '>' :: .mark '('
      :: rest => do
    let (e, rest) ← readExpr fuel rest
    return (.toDouble e, ← skipMark ')' rest)
  | fuel + 1, .word container :: .mark '[' :: rest => do
    let (key, rest) ← readExpr fuel rest
    readSuffixes fuel (.element container key) (← skipMark ']' rest)
  | fuel + 1, .word word :: rest => readSuffixes fuel (readAtom word) rest
  | _, _ => none

/-- An expression and the members that are taken of it, each of what stands before
it. -/
def readSuffixes : Nat → CodeExpr → List Token → Option (CodeExpr × List Token)
  | 0, _, _ => none
  | fuel + 1, e, .mark '.' :: .word "size" :: .mark '(' :: .mark ')' :: rest =>
    readSuffixes fuel (.size e) rest
  | fuel + 1, e, .mark '.' :: .word "empty" :: .mark '(' :: .mark ')' :: rest =>
    readSuffixes fuel (.isEmpty e) rest
  | fuel + 1, e, .mark '.' :: .word "end" :: .mark '(' :: .mark ')' :: rest =>
    readSuffixes fuel (.past e) rest
  | fuel + 1, e, .mark '.' :: .word "find" :: .mark '(' :: rest => do
    let (key, rest) ← readExpr fuel rest
    readSuffixes fuel (.find e key) (← skipMark ')' rest)
  | fuel + 1, e, .mark '.' :: .word "first" :: rest => readSuffixes fuel (.first e) rest
  | fuel + 1, e, .mark '.' :: .word "second" :: rest => readSuffixes fuel (.second e) rest
  | fuel + 1, e, .mark '-' :: .mark '>' :: rest =>
    readSuffixes fuel (.pointee e) (.mark '.' :: rest)
  | _ + 1, e, rest => some (e, rest)

end

/-- An expression before some last tokens. -/
def readExprBefore (last : List Token) (tokens : List Token) : Option CodeExpr := do
  let (e, rest) ← readExpr (2 * tokens.length) tokens
  if rest = last then some e else none

/-! ## Phrases -/

/-- The type of a map variable: times or counts by name. -/
inductive MapType where
  | times
  | counts
deriving DecidableEq

/-- A line of code. -/
inductive Phrase where
  /-- A lock is taken until the block ends. -/
  | lock
  /-- An empty map is declared. -/
  | declare (type : MapType) (x : String)
  /-- A variable gets its first value; its type may be left to the value. -/
  | define (type : Option MapType) (x : String) (e : CodeExpr)
  | add (target e : CodeExpr)
  | divide (target e : CodeExpr)
  /-- The empty map is returned. -/
  | answerEmpty
  | answer (e : CodeExpr)
deriving DecidableEq

/-- A type, with the tokens behind it. -/
def readType : List Token → Option (Option MapType × List Token)
  | .word "ProfilerResult" :: rest => some (some .times, rest)
  | .word "std::unordered_map" :: .mark '<' :: .word "std::string" :: .mark ','
      :: .word "std::size_t" :: .mark '>' :: rest => some (some .counts, rest)
  | .word "auto" :: rest => some (none, rest)
  | _ => none

/-- A declaration. -/
def readDeclaration (tokens : List Token) : Option Phrase := do
  match ← readType tokens with
  | (some type, [.word x, .mark ';']) => some (.declare type x)
  | (type, .word x :: .mark '=' :: rest) => do
    return .define type x (← readExprBefore [.mark ';'] rest)
  | _ => none

/-- An assignment that changes a value by another. -/
def readUpdate (tokens : List Token) : Option Phrase := do
  match ← readExpr (2 * tokens.length) tokens with
  | (target, .mark '+' :: .mark '=' :: rest) => do
    return .add target (← readExprBefore [.mark ';'] rest)
  | (target, .mark '/' :: .mark '=' :: rest) => do
    return .divide target (← readExprBefore [.mark ';'] rest)
  | _ => none

/-- The phrase that a line of code is. -/
def readPhrase (text : String) : Option Phrase :=
  match tokens text with
  | [.word "std::lock_guard", .mark '<', .word "std::mutex", .mark '>', .word _, .mark '(',
      .word _, .mark ')', .mark ';'] => some .lock
  | [.word "return", .mark '\x7b', .mark '\x7d', .mark ';'] => some .answerEmpty
  | .word "return" :: rest => (readExprBefore [.mark ';'] rest).map .answer
  | tokens => readDeclaration tokens <|> readUpdate tokens

/-! ## Headers -/

/-- What stands before a block. -/
inductive Header where
  | branch (condition : CodeExpr)
  /-- A loop over the elements of a container; a constant one does not change them. -/
  | each (constant : Bool) (x container : String)
  /-- A loop over the indices of a container from some index on. -/
  | count (x : String) (start : Nat) (container : String)
deriving DecidableEq

/-- The header that a text is. -/
def readHeader (text : String) : Option Header :=
  match tokens text with
  | .word "if" :: .mark '(' :: rest => (readExprBefore [.mark ')'] rest).map .branch
  | [.word "for", .mark '(', .word "const", .word "auto", .mark '&', .word x, .word ":",
      .word container, .mark ')'] => some (.each true x container)
  | [.word "for", .mark '(', .word "auto", .mark '&', .word x, .word ":", .word container,
      .mark ')'] => some (.each false x container)
  | [.word "for", .mark '(', .word "std::size_t", .word x, .mark '=', .word start, .mark ';',
      .word y, .mark '<', .word container, .mark '.', .word "size", .mark '(', .mark ')', .mark ';',
      .mark '+', .mark '+', .word z, .mark ')'] =>
    match readAtom start with
    | .numeral n => if x = y ∧ x = z then some (.count x n container) else none
    | _ => none
  | _ => none

end Chronograph
