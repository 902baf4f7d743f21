namespace JavaLex

inductive Operator where
  | plus | minus | star | slash | percent | caret | ampersand | pipe | tilde | bang | equal | less
  | greater | question | colon | equalEqual | bangEqual | lessEqual | greaterEqual
  | ampersandAmpersand | pipePipe | plusPlus | minusMinus | arrow | shiftLeft | shiftRight
  | unsignedShiftRight | plusEqual | minusEqual | starEqual | slashEqual | percentEqual
  | caretEqual | ampersandEqual | pipeEqual | shiftLeftEqual | shiftRightEqual
  | unsignedShiftRightEqual
  deriving DecidableEq

inductive Separator where
  | leftParen | rightParen | leftBracket | rightBracket | leftBrace | rightBrace | comma
  | semicolon | dot | ellipsis | doubleColon | atSign
  deriving DecidableEq

def Operator.text : Operator → String
  | .plus => "+"
  | .minus => "-"
  | .star => "*"
  | .slash => "/"
  | .percent => "%"
  | .caret => "^"
  | .ampersand => "&"
  | .pipe => "|"
  | .tilde => "~"
  | .bang => "!"
  | .equal => "="
  | .less => "<"
  | .greater => ">"
  | .question => "?"
  | .colon => ":"
  | .equalEqual => "=="
  | .bangEqual => "!="
  | .lessEqual => "<="
  | .greaterEqual => ">="
  | .ampersandAmpersand => "&&"
  | .pipePipe => "||"
  | .plusPlus => "++"
  | .minusMinus => "--"
  | .arrow => "->"
  | .shiftLeft => "<<"
  | .shiftRight => ">>"
  | .unsignedShiftRight => ">>>"
  | .plusEqual => "+="
  | .minusEqual => "-="
  | .starEqual => "*="
  | .slashEqual => "/="
  | .percentEqual => "%="
  | .caretEqual => "^="
  | .ampersandEqual => "&="
  | .pipeEqual => "|="
  | .shiftLeftEqual => "<<="
  | .shiftRightEqual => ">>="
  | .unsignedShiftRightEqual => ">>>="

def Separator.text : Separator → String
  | .leftParen => "("
  | .rightParen => ")"
  | .leftBracket => "["
  | .rightBracket => "]"
  | .leftBrace => "\x7b"
  | .rightBrace => "\x7d"
  | .comma => ","
  | .semicolon => ";"
  | .dot => "."
  | .ellipsis => "..."
  | .doubleColon => "::"
  | .atSign => "@"

def Operator.all : List Operator :=
  [.plus, .minus, .star, .slash, .percent, .caret, .ampersand, .pipe, .tilde, .bang, .equal,
   .less, .greater, .question, .colon, .equalEqual, .bangEqual, .lessEqual, .greaterEqual,
   .ampersandAmpersand, .pipePipe, .plusPlus, .minusMinus, .arrow, .shiftLeft, .shiftRight,
   .unsignedShiftRight, .plusEqual, .minusEqual, .starEqual, .slashEqual, .percentEqual,
   .caretEqual, .ampersandEqual, .pipeEqual, .shiftLeftEqual, .shiftRightEqual,
   .unsignedShiftRightEqual]

def Separator.all : List Separator :=
  [.leftParen, .rightParen, .leftBracket, .rightBracket, .leftBrace, .rightBrace, .comma,
   .semicolon, .dot, .ellipsis, .doubleColon, .atSign]

theorem Operator.mem_all (op : Operator) : op ∈ Operator.all := by
  cases op <;> decide

theorem Separator.mem_all (sep : Separator) : sep ∈ Separator.all := by
  cases sep <;> decide

end JavaLex
