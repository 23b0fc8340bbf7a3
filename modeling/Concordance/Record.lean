import Concordance.Reader

/-!
# Records

The entries of an index that are not words: documents, meta names, and plain
strings.

## Main definitions

* `Record`: What an index keeps about a document.
* `Record.encode`, `Record.decode`: The bytes of a record.
* `MetaName.encode`, `MetaName.decode`: A meta name with its id.
* `decodeText`: A plain string.
-/

namespace Concordance

/-- What an index keeps about a document. Its id is its place among the
    records. -/
structure Record where
  /-- The place of its directory among the directories. -/
  directory : UInt32
  name : String
  size : UInt64
  /-- How many words were counted in it, indexed or not. -/
  words : UInt32 := 0
  title : String
deriving DecidableEq, Repr

namespace Record

/-- The bytes of a record. -/
def encode (record : Record) : Bytes :=
  Varint.encode record.directory.toNat ++ nulClosed record.name ++ Varint.encode record.size.toNat
    ++ Varint.encode record.words.toNat ++ nulClosed record.title

/-- Reads a record off the front of its entry. -/
def decode (entry : Bytes) : Except Error Record :=
  match Reader.u32 ⟨entry, 0⟩ with
  | (.error e, _) => .error e
  | (.ok directory, r) =>
    match r.text with
    | (.error e, _) => .error e
    | (.ok name, r) =>
      match r.varint with
      | (.error e, _) => .error e
      | (.ok size, r) =>
        match r.u32 with
        | (.error e, _) => .error e
        | (.ok words, r) =>
          match r.text with
          | (.error e, _) => .error e
          | (.ok title, _) => .ok { directory, name, size := UInt64.ofNat size, words, title }

end Record

namespace MetaName

/-- The bytes of a meta name with its id. -/
def encode (name : String) (id : UInt32) : Bytes :=
  nulClosed name ++ Varint.encode id.toNat

/-- Reads a meta name and its id off the front of their entry. -/
def decode (entry : Bytes) : Except Error (String × UInt32) :=
  match Reader.text ⟨entry, 0⟩ with
  | (.error e, _) => .error e
  | (.ok name, r) =>
    match r.u32 with
    | (.error e, _) => .error e
    | (.ok id, _) => .ok (name, id)

end MetaName

/-- Reads a plain string off the front of its entry. An error says that it was
    a string that could not be read. -/
def decodeText (entry : Bytes) : Except Error String :=
  match Reader.text ⟨entry, 0⟩ with
  | (.ok text, _) => .ok text
  | (.error (.corrupt cause), _) => .error (.corrupt (.badString cause))
  | (.error e, _) => .error e

end Concordance
