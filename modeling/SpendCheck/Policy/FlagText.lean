import SpendCheck.Policy.Flags
import SpendCheck.Text.Words

namespace SpendCheck

/-- A word in a list of flags that names none. -/
structure UnknownFlag where
  word : String
deriving DecidableEq, Repr

/-- The sentence shown to a user. -/
def UnknownFlag.message (error : UnknownFlag) : String :=
  "unknown verification flag '" ++ error.word ++ "'"

namespace Flags

/-- The flag with a given name. -/
def flagNamed? (word : List Char) : Option Flag :=
  Flag.all.find? fun flag => flag.name.toList == word

/-- Adds the flag that a trimmed word names; an empty word and `NONE` add nothing. -/
def addWord (flags : Flags) (word : List Char) : Except UnknownFlag Flags :=
  if word.isEmpty || word == "NONE".toList then .ok flags
  else
    match flagNamed? word with
    | some flag => .ok ⟨flags.bits ||| flag.mask⟩
    | Option.none => .error ⟨String.ofList word⟩

/-- Reads names separated by commas, with blanks around them. The first word
    that is no name is reported. -/
def parse (text : String) : Except UnknownFlag Flags :=
  ((Text.splitWhen (· == ',') text.toList).map Text.trim).foldlM addWord none

/-- The names in the set, separated by commas. -/
def text (flags : Flags) : String :=
  ",".intercalate (flags.toList.map Flag.name)

end Flags

end SpendCheck
