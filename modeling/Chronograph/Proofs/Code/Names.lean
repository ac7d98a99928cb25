import Chronograph.Code.Rendering
import Chronograph.Proofs.Code.Quotation
import Chronograph.Text.Symbol

/-!
# The names in code

Which names a text of code uses.  The text is read from the left: runs of the
characters of an identifier are names, and a string literal, with whatever is escaped
in it, is none (`readNames`).  One special name is known from the start and is read as
a whole, because it may be made of any characters; it is the name of a buffer, behind
whose first letters stands the name of a tensor.

An operator's name is written in a literal, so no name is read in it
(`readNames_escapeLiteral`).  The code of operators is not looked at.
-/

namespace Chronograph

/-! ## Names in a text -/

/-- Where the reader of a text stands. -/
inductive ReaderPlace where
  /-- Behind the characters of a name, last character first. -/
  | name (gathered : List Char)
  /-- Within the special name, with more characters of it to come. -/
  | special (more : Nat)
  /-- Within a string literal. -/
  | literal
  /-- Behind a backslash in a string literal. -/
  | escaped

/-- The place before the last characters of the special name, so many of them. -/
def ReaderPlace.before : Nat → ReaderPlace
  | 0 => .name []
  | more + 1 => .special more

/-- The name that has been gathered, if any. -/
def gatheredName : List Char → List String
  | [] => []
  | gathered => [String.ofList gathered.reverse]

/-- Whether a text begins with a name: the name, and no more characters of one. -/
def beginsWithName (name text : List Char) : Bool :=
  name.isPrefixOf text && !(text.drop name.length).head?.any isSymbolChar

/-- The names in a text, in order. -/
def readNames (special : List Char) : List Char → ReaderPlace → List String
  | [], .name gathered => gatheredName gathered
  | [], _ => []
  | c :: rest, .name gathered =>
    if gathered.isEmpty && beginsWithName special (c :: rest) then
      String.ofList special :: readNames special rest (.before (special.length - 1))
    else if isSymbolChar c then readNames special rest (.name (c :: gathered))
    else gatheredName gathered ++ readNames special rest (if c = '"' then .literal else .name [])
  | _ :: rest, .special more => readNames special rest (.before more)
  | c :: rest, .literal =>
    readNames special rest
      (if c = '\\' then .escaped else if c = '"' then .name [] else .literal)
  | _ :: rest, .escaped => readNames special rest .literal

/-- The names that a text uses. -/
def namesIn (special : List Char) (text : String) : List String :=
  readNames special text.toList (.name [])

/-- Behind the special name the reader goes on as before it. -/
theorem readNames_before (special : List Char) (passed rest : List Char) :
    readNames special (passed ++ rest) (.before passed.length) =
      readNames special rest (.name []) := by
  induction passed with
  | nil => rfl
  | cons c passed ih => exact ih

/-- The special name is read as a whole. -/
theorem readNames_special {special rest : List Char} (hspecial : special ≠ [])
    (hrest : rest.head?.any isSymbolChar = false) :
    readNames special (special ++ rest) (.name []) =
      String.ofList special :: readNames special rest (.name []) := by
  obtain ⟨c, others, rfl⟩ := List.exists_cons_of_ne_nil hspecial
  have hbegins : beginsWithName (c :: others) (c :: (others ++ rest)) = true := by
    rw [beginsWithName, ← List.cons_append, List.drop_left, hrest]
    simp
  rw [List.cons_append, readNames, hbegins]
  exact congrArg _ (readNames_before (c :: others) others rest)

/-- No name is read in a text that is spelled inside a literal. -/
theorem readNames_escapeLiteral (special s rest : List Char) :
    readNames special (escapeLiteral s ++ '"' :: rest) .literal =
      readNames special rest (.name []) := by
  induction s with
  | nil => rfl
  | cons c s ih =>
      rw [escapeLiteral_cons, List.append_assoc]
      obtain ⟨d, hescaped, -⟩ | ⟨hitself, hbackslash, hquote, -⟩ := escapeLiteralChar_cases c
      · rw [hescaped]
        exact ih
      · rw [hitself, List.singleton_append, readNames, if_neg hbackslash, if_neg hquote]
        exact ih

/-- A text is read in the same way for all special names that do not occur in it. -/
theorem readNames_eq_of_absent {special other text : List Char} (hspecial : ¬ special <:+: text)
    (hother : ¬ other <:+: text) (place : ReaderPlace) :
    readNames special text place = readNames other text place := by
  have hbegins {name text : List Char} (h : ¬ name <:+: text) :
      beginsWithName name text = false := by
    have hfirst : name.isPrefixOf text = false := by
      rw [Bool.eq_false_iff, Ne, List.isPrefixOf_iff_prefix]
      exact fun hfirst => h hfirst.isInfix
    rw [beginsWithName, hfirst, Bool.false_and]
  induction text generalizing place with
  | nil => cases place <;> rfl
  | cons c rest ih =>
      have hrest := ih (fun h => hspecial (h.trans (List.suffix_cons c rest).isInfix))
        (fun h => hother (h.trans (List.suffix_cons c rest).isInfix))
      cases place with
      | name gathered =>
          simp only [readNames, hbegins hspecial, hbegins hother, Bool.and_false,
            Bool.false_eq_true, if_false, hrest]
      | special more => exact hrest _
      | literal => exact hrest _
      | escaped => exact hrest _

/-! ## Names in statements and items -/

mutual

/-- The texts of a statement's own code.  Comments are none, and neither is the code of
operators. -/
def Stmt.codeTexts : Stmt → List String
  | .line text => [text]
  | .block header body => header :: Stmt.codeTextsAll body
  | .timerStart _ => [timerStartText]
  | .timerStop _ operator => [timerStopText operator]
  | .comment _ | .blank | .verbatim _ => []

/-- The texts of the code of statements, in order. -/
def Stmt.codeTextsAll : List Stmt → List String
  | [] => []
  | s :: rest => Stmt.codeTexts s ++ Stmt.codeTextsAll rest

end

theorem Stmt.codeTextsAll_append (xs ys : List Stmt) :
    Stmt.codeTextsAll (xs ++ ys) = Stmt.codeTextsAll xs ++ Stmt.codeTextsAll ys := by
  induction xs with
  | nil => rfl
  | cons s xs ih => rw [List.cons_append, codeTextsAll, codeTextsAll, ih, List.append_assoc]

/-- The texts of an item's own code: its types and, in a function, the statements.  The
code of namespaces within and of foreign functions is not its own. -/
def Item.codeTexts : Item → List String
  | .typeAlias _ target => [target]
  | .global type _ _ _ => [type]
  | .function f => f.returns :: f.params.map Param.type ++ Stmt.codeTextsAll f.body
  | .comment _ | .header _ | .blank | .scope .. | .foreign _ => []

/-- The names that texts use. -/
def namesInAll (special : List Char) (texts : List String) : List String :=
  texts.flatMap (namesIn special)

theorem namesInAll_singleton (special : List Char) (text : String) :
    namesInAll special [text] = namesIn special text := by
  simp [namesInAll]

theorem namesInAll_append (special : List Char) (xs ys : List String) :
    namesInAll special (xs ++ ys) = namesInAll special xs ++ namesInAll special ys :=
  List.flatMap_append

/-- The name that an item declares. -/
def Item.declaredName? : Item → Option String
  | .typeAlias name _ | .global _ name _ _ => some name
  | .function f => some f.name
  | .comment _ | .header _ | .blank | .scope .. | .foreign _ => none

end Chronograph
