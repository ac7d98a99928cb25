/-!
# Templates

A template is a text with placeholders, each the four characters of `id` in
braces.  `fillTemplate` puts one text in the place of every placeholder, from
left to right; nothing it has written is looked at again.
-/

namespace Chronograph

/-- A template with `value` in the place of each placeholder. -/
def fillTemplate (value : List Char) : List Char → List Char
  | '{' :: 'i' :: 'd' :: '}' :: rest => value ++ fillTemplate value rest
  | c :: rest => c :: fillTemplate value rest
  | [] => []

end Chronograph
