import Concordance.Utf8
import Concordance.Query.Token
import Concordance.Text.Quoted

/-!
# Errors

Everything that can go wrong, by cause.

An index may come from anywhere, so each way in which its bytes can be wrong is
a `Corruption`. A query and a configuration come from a person, and each way in
which they can be wrong is a `Malformed` or an `Invalid`. What the file system
refuses is an `OsError`. `Error.fault` is none of these: it is what a reader
would raise if it stepped outside the bytes it was given, and no reader does.

## Main definitions

* `Error`: What can go wrong.
* `Error.message`: The wording of an error.
* `Error.report`: The same, with the cause behind it.
* `Error.blamesRequest`: Is the request to blame, and not the index or the disk?
-/

namespace Concordance

/-- How the bytes of an index can be wrong. -/
inductive Corruption where
  | emptyVarint
  | varintOverflow
  | varintTooLong
  | incompleteVarint
  /-- A value that must fit in 32 bits does not. -/
  | exceedsU32 (value : Nat)
  | endOfData (position : Nat)
  | unterminated
  | notText (fault : Utf8.Fault)
  /-- A stored string that can not be read. -/
  | badString (cause : Corruption)
  | truncatedOffset (position : Nat)
  | tableOverflow (count : Nat)
  | tableOutside (count size : Nat)
  | entryOutOfRange (entry count : Nat)
  | entryOutside (entry offset : Nat)
  | entryBackwards (entry start stop : Nat)
  | positionOverflow
  /-- A source of a merge has this word after that one. -/
  | wordOrder (word previous : String)
  | documentOrder (document previous : Nat)
  | unknownDocument (document : Nat)
  /-- More entries arrived for a segment than its table has room for. -/
  | segmentGrew (segment : String) (count : Nat)
deriving DecidableEq, Repr

/-- How a query can be wrong. -/
inductive Malformed where
  | emptyQuery
  | loneStar (position : Nat)
  | starAfter (text : String)
  | unexpected (token : Token)
  | unexpectedEnd
  | unmatchedOpen
  | unmatchedClose
  | tooDeep
  | tooManyOperators
  | nearNot
  | emptyChain
  | chainOfNoWord
  | nearOperands
deriving DecidableEq, Repr

/-- How a configuration can be wrong. -/
inductive Invalid where
  | noThreshold
  | percentage (percent : Nat)
  | wordSizes (smallest largest : Nat)
deriving DecidableEq, Repr

/-- What a file system refuses. -/
inductive OsError where
  | noSuchFile
  | alreadyThere
  | noSuchDevice
  | notDirectory
  | isDirectory
  | tooManyLinks
  | busy
  | nameTooLong
  | nulInPath
  | notText
deriving DecidableEq, Repr

/-- What can go wrong. -/
inductive Error where
  | corrupt (cause : Corruption)
  | malformed (cause : Malformed)
  | invalid (cause : Invalid)
  | cannotOpen (path : String) (cause : OsError)
  /-- There is no place for a new file at a path. -/
  | cannotCreate (path : String) (cause : OsError)
  /-- A finished file can not be moved to its path. -/
  | cannotReplace (path : String) (cause : OsError)
  /-- A reader left the bytes it was given. -/
  | fault
deriving DecidableEq, Repr

/-- The wording of a corruption. -/
def Corruption.message : Corruption → String
  | .emptyVarint => "empty buffer for varint"
  | .varintOverflow => "varint overflows u64"
  | .varintTooLong => "varint exceeds maximum length"
  | .incompleteVarint => "incomplete varint"
  | .exceedsU32 value => s!"value {value} exceeds u32"
  | .endOfData position => s!"unexpected end of data at byte {position}"
  | .unterminated => "unterminated string"
  | .notText fault => s!"invalid UTF-8: {fault.message}"
  | .badString cause => "bad string entry: corrupt index: " ++ cause.message
  | .truncatedOffset position => s!"truncated u64 at byte {position}"
  | .tableOverflow count => s!"offset table count {count} overflows"
  | .tableOutside count size => s!"offset table of {count} entries exceeds blob of {size} bytes"
  | .entryOutOfRange entry count => s!"entry {entry} out of range ({count} entries)"
  | .entryOutside entry offset => s!"entry {entry} offset {offset} outside blob"
  | .entryBackwards entry start stop =>
    s!"entry {entry} starts at {start} after next entry at {stop}"
  | .positionOverflow => "word position overflows u32"
  | .wordOrder word previous =>
    "merge source out of order: " ++ Text.quoted word ++ " after " ++ Text.quoted previous
  | .documentOrder document previous =>
    s!"posting for document {document} after document {previous}"
  | .unknownDocument document => s!"posting for unknown document {document}"
  | .segmentGrew segment count => s!"{segment} segment grew past its counted size {count}"

/-- The wording of a malformed query. -/
def Malformed.message : Malformed → String
  | .emptyQuery => "empty query"
  | .loneStar position => s!"wildcard without a prefix at position {position}"
  | .starAfter text => s!"wildcard without a prefix after '{text}'"
  | .unexpected token => s!"unexpected {token.describe}"
  | .unexpectedEnd => "unexpected end of query"
  | .unmatchedOpen => "unmatched '('"
  | .unmatchedClose => "unmatched ')'"
  | .tooDeep => "query nested too deeply"
  | .tooManyOperators => "query has too many operators"
  | .nearNot => "'near' cannot apply to a 'not' expression"
  | .emptyChain => "empty 'near' chain"
  | .chainOfNoWord => "'near' operand is not a word"
  | .nearOperands => "'near' operands must be words"

/-- The wording of an invalid configuration. -/
def Invalid.message : Invalid → String
  | .noThreshold => "word threshold must be at least 1"
  | .percentage percent => s!"word percentage {percent} exceeds 100"
  | .wordSizes smallest largest =>
    s!"word sizes {smallest}..={largest} are not a valid range"

/-- The wording of what a file system refuses. -/
def OsError.message : OsError → String
  | .noSuchFile => "No such file or directory (os error 2)"
  | .alreadyThere => "File exists (os error 17)"
  | .noSuchDevice => "No such device (os error 19)"
  | .notDirectory => "Not a directory (os error 20)"
  | .isDirectory => "Is a directory (os error 21)"
  | .tooManyLinks => "Too many levels of symbolic links (os error 40)"
  | .busy => "Device or resource busy (os error 16)"
  | .nameTooLong => "File name too long (os error 36)"
  | .nulInPath => "file name contained an unexpected NUL byte"
  | .notText => "stream did not contain valid UTF-8"

namespace Error

/-- The wording of an error. -/
def message : Error → String
  | .corrupt cause => "corrupt index: " ++ cause.message
  | .malformed cause => "malformed query: " ++ cause.message
  | .invalid cause => "invalid configuration: " ++ cause.message
  | .cannotOpen path cause => s!"cannot open {path}: {cause.message}"
  | .cannotCreate path cause => s!"cannot create {path}: {cause.message}"
  | .cannotReplace path cause => s!"cannot create {path}: {cause.message}"
  | .fault => "access outside the data"

/-- The wording of an error with its cause behind it. The cause of a file that
    can not be created would name a file that no one asked for, and is left out. -/
def report : Error → String
  | .cannotOpen path cause => s!"cannot open {path}: {cause.message}: {cause.message}"
  | .cannotReplace path cause => s!"cannot create {path}: {cause.message}: {cause.message}"
  | error => error.message

/-- Is the request to blame, and not the index or the disk? A service reports
    such an error and goes on. -/
def blamesRequest : Error → Bool
  | .malformed _ | .invalid _ => true
  | _ => false

end Error

end Concordance
