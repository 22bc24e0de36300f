/-
# URL references

The URL parser of browsers and of Node, as far as origin, path and query go.  A string is a list of
Unicode scalar values; the fragment is dropped.

`reference` reads a string against a base and takes it apart: which scheme, which authority, the
segments of the path as they are written, the query.  `Reference.url` then removes the dot segments.

What stands between `//` and the path (credentials, host, port) is for `Platform.authority` to parse,
and what follows `file:` for `Platform.file`: nothing here depends on how they do it.
-/
import Mathlib.Data.List.DropRight
import Mathlib.Data.List.Infix

namespace Url

abbrev Str := List Char

/-! ## 1. Characters -/

def isTabOrNewline (c : Char) : Bool := c == '\t' || c == '\n' || c == '\r'

def isC0OrSpace (c : Char) : Bool := c.toNat ≤ 0x20

/-- The C0 control percent-encode set. -/
def inC0Set (c : Char) : Bool := c.toNat ≤ 0x1F || 0x7E < c.toNat

/-- The query percent-encode set; `special` adds the apostrophe. -/
def inQuerySet (special : Bool) (c : Char) : Bool :=
  inC0Set c || [' ', '\x22', '#', '<', '>'].contains c || (special && c == '\x27')

/-- The path percent-encode set. -/
def inPathSet (c : Char) : Bool :=
  inQuerySet false c || ['?', '^', '\x60', '\x7b', '\x7d'].contains c

def hexDigits : Str := "0123456789ABCDEF".toList

def hexDigit (n : Nat) : Char := hexDigits.getD n '0'

def percentEncodeByte (b : UInt8) : Str := ['%', hexDigit (b.toNat / 16), hexDigit (b.toNat % 16)]

/-- UTF-8 percent-encode. -/
def percentEncode (set : Char → Bool) (s : Str) : Str :=
  s.flatMap (fun c => if set c then (String.utf8EncodeChar c).flatMap percentEncodeByte else [c])

/-- Leading and trailing C0 controls and spaces go, and tabs and newlines wherever they are. -/
def clean (s : Str) : Str :=
  ((s.dropWhile isC0OrSpace).rdropWhile isC0OrSpace).filter (fun c => !isTabOrNewline c)

/-! ## 2. Parts of a string -/

def isSlash (special : Bool) (c : Char) : Bool := c == '/' || (special && c == '\\')

def endsPath (c : Char) : Bool := c == '?' || c == '#'

/-- What comes before the query and the fragment. -/
def pathText (s : Str) : Str := s.takeWhile (fun c => !endsPath c)

/-- The query, encoded. -/
def queryOf (special : Bool) (s : Str) : Option Str :=
  match s.dropWhile (fun c => !endsPath c) with
  | '?' :: q => some (percentEncode (inQuerySet special) (q.takeWhile (· != '#')))
  | _ => none

def isSchemeChar (c : Char) : Bool := c.isAlphanum || c == '+' || c == '-' || c == '.'

/-- The scheme, in lower case, and what follows the colon. -/
def splitScheme (s : Str) : Option (Str × Str) :=
  match s with
  | [] => none
  | c :: _ =>
    if c.isAlpha then
      match s.dropWhile isSchemeChar with
      | ':' :: rest => some ((s.takeWhile isSchemeChar).map Char.toLower, rest)
      | _ => none
    else none

def http : Str := "http".toList
def https : Str := "https".toList
def file : Str := "file".toList
def blob : Str := "blob".toList

/-- The special schemes that come with an authority. -/
def isSpecial (scheme : Str) : Bool :=
  [http, https, "ws".toList, "wss".toList, "ftp".toList].contains scheme

/-! ## 3. References -/

structure Authority where
  host : Str
  port : Option Nat
  deriving DecidableEq, Repr

/-- The path of a reference. -/
inductive RawPath where
  /-- An opaque path. -/
  | verbatim (text : Str)
  /-- Segments to add to the path `start`, as they are written. -/
  | segments (start raw : List Str)
  deriving DecidableEq, Repr

structure Reference where
  scheme : Str
  authority : Option Authority
  path : RawPath
  query : Option Str
  deriving DecidableEq, Repr

/-- A base with the scheme `https` (`secure`) or `http`. -/
structure Base where
  secure : Bool
  authority : Authority
  path : List Str
  query : Option Str
  deriving DecidableEq, Repr

def Base.scheme (b : Base) : Str := if b.secure then https else http

structure Platform where
  /-- What stands between `//` and the path of a URL of the given scheme; `none` is a failure. -/
  authority (scheme text : Str) : Option Authority
  /-- Path and query of a `file` URL, from what follows the colon. -/
  file (rest : Str) : Option (List Str × Option Str)

section

variable (p : Platform)

/-- The text goes on in a path, whose first slash has been read. -/
def pathFrom (scheme : Str) (authority : Option Authority) (start : List Str) (s : Str) : Reference :=
  ⟨scheme, authority, .segments start ((pathText s).splitOnP (isSlash (isSpecial scheme))),
    queryOf (isSpecial scheme) s⟩

/-- The text goes on after an authority. -/
def afterAuthority (scheme : Str) (authority : Authority) (s : Str) : Reference :=
  match s with
  | [] => if isSpecial scheme then pathFrom scheme authority [] [] else
      ⟨scheme, authority, .segments [] [], none⟩
  | c :: rest =>
    if isSlash (isSpecial scheme) c then pathFrom scheme authority [] rest
    else if isSpecial scheme then pathFrom scheme authority [] s
    else ⟨scheme, authority, .segments [] [], queryOf false s⟩

def endsAuthority (special : Bool) (c : Char) : Bool := isSlash special c || endsPath c

/-- The text begins with an authority. -/
def fromAuthority (scheme : Str) (s : Str) : Option Reference :=
  (p.authority scheme (s.takeWhile (fun c => !endsAuthority (isSpecial scheme) c))).map fun a =>
    afterAuthority scheme a (s.dropWhile (fun c => !endsAuthority (isSpecial scheme) c))

/-- A special scheme does not care how many slashes there are. -/
def ignoreSlashes (scheme : Str) (s : Str) : Option Reference :=
  fromAuthority p scheme (s.dropWhile (isSlash true))

/-- A reference relative to the base. -/
def relative (b : Base) (s : Str) : Option Reference :=
  match s with
  | [] => some ⟨b.scheme, b.authority, .segments b.path [], b.query⟩
  | c :: rest =>
    if c == '?' then some ⟨b.scheme, b.authority, .segments b.path [], queryOf true s⟩
    else if c == '#' then some ⟨b.scheme, b.authority, .segments b.path [], b.query⟩
    else if isSlash true c then
      match rest with
      | [] => some (pathFrom b.scheme b.authority [] [])
      | c' :: rest' =>
        if isSlash true c' then ignoreSlashes p b.scheme rest'
        else some (pathFrom b.scheme b.authority [] rest)
    else some (pathFrom b.scheme b.authority b.path.dropLast s)

/-- An opaque path; a space before a query or a fragment is encoded. -/
def opaquePath (s : Str) : Str :=
  let text := percentEncode inC0Set (pathText s)
  if s.any endsPath && text.getLast? == some ' ' then text.dropLast ++ ['%', '2', '0'] else text

/-- A string with a scheme. -/
def absolute (base : Option Base) (scheme rest : Str) : Option Reference :=
  if scheme = file then
    (p.file rest).map fun u => ⟨file, none, .segments u.1 [], u.2⟩
  else if isSpecial scheme then
    match base with
    | none => ignoreSlashes p scheme rest
    | some b =>
      if b.scheme = scheme then
        match rest with
        | '/' :: '/' :: rest => ignoreSlashes p scheme rest
        | _ => relative p b rest
      else ignoreSlashes p scheme rest
  else
    match rest with
    | '/' :: '/' :: rest => fromAuthority p scheme rest
    | '/' :: rest => some (pathFrom scheme none [] rest)
    | _ => some ⟨scheme, none, .verbatim (opaquePath rest), queryOf false rest⟩

/-- `none` is a failure. -/
def reference (base : Option Base) (input : Str) : Option Reference :=
  let s := clean input
  match splitScheme s with
  | some (scheme, rest) => absolute p base scheme rest
  | none => base.bind (fun b => relative p b s)

end

/-! ## 4. Dot segments -/

def isSingleDot (seg : Str) : Bool := [".", "%2e"].contains (String.ofList (seg.map Char.toLower))

def isDoubleDot (seg : Str) : Bool :=
  ["..", ".%2e", "%2e.", "%2e%2e"].contains (String.ofList (seg.map Char.toLower))

/-- The path after a segment that a slash follows. -/
def pushSegment (path : List Str) (seg : Str) : List Str :=
  let buffer := percentEncode inPathSet seg
  if isDoubleDot buffer then path.dropLast
  else if isSingleDot buffer then path
  else path ++ [buffer]

/-- The path after the last segment. -/
def lastSegment (path : List Str) (seg : Str) : List Str :=
  let buffer := percentEncode inPathSet seg
  if isDoubleDot buffer then path.dropLast ++ [[]]
  else if isSingleDot buffer then path ++ [[]]
  else path ++ [buffer]

def addSegments : List Str → List Str → List Str
  | path, [] => path
  | path, [seg] => lastSegment path seg
  | path, seg :: seg' :: segs => addSegments (pushSegment path seg) (seg' :: segs)

/-! ## 5. URLs -/

inductive Path where
  /-- An opaque path. -/
  | verbatim (text : Str)
  | segments (segs : List Str)
  deriving DecidableEq, Repr

structure Record where
  scheme : Str
  authority : Option Authority
  path : Path
  query : Option Str
  deriving DecidableEq, Repr

def RawPath.path : RawPath → Path
  | verbatim text => .verbatim text
  | segments start raw => .segments (addSegments start raw)

def Reference.url (r : Reference) : Record := ⟨r.scheme, r.authority, r.path.path, r.query⟩

/-- `new URL(input, base)` -/
def parse (p : Platform) (base : Option Base) (input : Str) : Option Record :=
  (reference p base input).map Reference.url

inductive Origin where
  | tuple (scheme : Str) (authority : Authority)
  /-- An origin that is like no other. -/
  | null
  deriving DecidableEq, Repr

namespace Record

variable (u : Record)

def pathname : Str :=
  match u.path with
  | .verbatim text => text
  | .segments segs => segs.flatMap (fun seg => '/' :: seg)

def search : Str :=
  match u.query with
  | none => []
  | some [] => []
  | some q => '?' :: q

def tupleOrigin : Origin :=
  match u.authority with
  | some a => if isSpecial u.scheme then .tuple u.scheme a else .null
  | none => .null

/-- The origin of a `blob` URL is that of the `http` or `https` URL in its path. -/
def origin (p : Platform) : Origin :=
  if u.scheme = blob then
    match parse p none u.pathname with
    | some v => if v.scheme = http ∨ v.scheme = https then v.tupleOrigin else .null
    | none => .null
  else u.tupleOrigin

end Record

def Base.origin (b : Base) : Origin := .tuple b.scheme b.authority

end Url
