import FormTree.Json.Reader

/-!
The names of schemas: URIs and references to them, in five parts. A reference
is resolved against the URI of the place where it stands.
-/

namespace FormTree

/-- A URI or, without a scheme, a reference relative to one. -/
structure Uri where
  scheme : Option (List Char) := none
  authority : Option (List Char) := none
  path : List Char := []
  query : Option (List Char) := none
  fragment : Option (List Char) := none
deriving DecidableEq, Repr

namespace Uri

def isHex (c : Char) : Bool := (Json.Reader.hexValue? c).isSome

/-- Characters that mean nothing but themselves, and those that separate parts
within a part. -/
def isPlain (c : Char) : Bool := c.isAlphanum || "-._~!$&'()*+,;=".toList.contains c

/-- Whether a text is made of plain characters, of some more, and of bytes as
two hexadecimal digits after `%`. -/
def isMadeOf (more : List Char) : List Char → Bool
  | [] => true
  | '%' :: a :: b :: rest => isHex a && isHex b && isMadeOf more rest
  | c :: rest => (isPlain c || more.contains c) && isMadeOf more rest

def isScheme (text : List Char) : Bool :=
  text.head?.any Char.isAlpha && text.all fun c => c.isAlphanum || "+-.".toList.contains c

def isOctet (text : List Char) : Bool :=
  match text with
  | [] => false
  | '0' :: _ :: _ => false
  | _ => text.all Char.isDigit && text.length ≤ 3 && (String.ofList text).toNat?.any (· < 256)

def isGroup (text : List Char) : Bool :=
  1 ≤ text.length && text.length ≤ 4 && text.all isHex

/-- The number of groups in a part of an address, of which four numbers may make
the last two. -/
def groups? : List (List Char) → Option Nat
  | [] | [[]] => some 0
  | [last] =>
    let octets := last.splitOn '.'
    if isGroup last then some 1
    else if octets.length = 4 ∧ octets.all isOctet then some 2
    else none
  | group :: rest => if isGroup group then (groups? rest).map (· + 1) else none

/-- What stands before and after the first two colons in a row. -/
def halves? : List Char → Option (List Char × List Char)
  | [] => none
  | ':' :: ':' :: rest => some ([], rest)
  | c :: rest => (halves? rest).map fun (before, after) => (c :: before, after)

/-- Whether a text is an address of eight groups, of which two colons may stand
for a run. -/
def isAddress (text : List Char) : Bool :=
  match halves? text with
  | none => groups? (text.splitOn ':') == some 8
  | some (before, after) =>
    match groups? (before.splitOn ':'), groups? (after.splitOn ':') with
    | some m, some n => m + n ≤ 7 && !before.contains '.'
    | _, _ => false

def isLiteral (text : List Char) : Bool :=
  match text with
  | 'v' :: rest | 'V' :: rest =>
    let version := rest.takeWhile isHex
    match rest.drop version.length with
    | '.' :: name =>
      !version.isEmpty && !name.isEmpty && name.all fun c => isPlain c || c == ':'
    | _ => false
  | _ => isAddress text

/-- Whether a text names a host, perhaps with a user before it and a port after
it. -/
def isAuthority (text : List Char) : Bool :=
  let user := text.takeWhile (· ≠ '@')
  let host := text.drop (user.length + 1)
  let (user, host) := if text.contains '@' then (user, host) else ([], text)
  isMadeOf [':'] user &&
    match host with
    | '[' :: rest =>
      let name := rest.takeWhile (· ≠ ']')
      isLiteral name &&
        match rest.drop name.length with
        | [']'] => true
        | ']' :: ':' :: port => port.all Char.isDigit
        | _ => false
    | _ =>
      let name := host.takeWhile (· ≠ ':')
      isMadeOf [] name && (host.drop (name.length + 1)).all Char.isDigit

/-- Takes what stands behind a mark off the end of a text. -/
def cut (mark : Char) (text : List Char) : List Char × Option (List Char) :=
  let front := text.takeWhile (· ≠ mark)
  match text.drop front.length with
  | _ :: rest => (front, some rest)
  | [] => (front, none)

/-- Takes the scheme off the front of a text. -/
def cutScheme (text : List Char) : Option (List Char) × List Char :=
  let front := text.takeWhile fun c => !":/?#".toList.contains c
  match text.drop front.length with
  | ':' :: rest => (some front, rest)
  | _ => (none, text)

/-- Takes the authority off the front of a text. -/
def cutAuthority (text : List Char) : Option (List Char) × List Char :=
  match text with
  | '/' :: '/' :: rest =>
    let authority := rest.takeWhile (· ≠ '/')
    (some authority, rest.drop authority.length)
  | _ => (none, text)

/-- Whether each part has the characters it may have. -/
def isValid (u : Uri) : Bool :=
  u.scheme.all isScheme && u.authority.all isAuthority && isMadeOf [':', '@', '/'] u.path &&
    u.query.all (isMadeOf [':', '@', '/', '?']) && u.fragment.all (isMadeOf [':', '@', '/', '?'])

def reference? (text : String) : Option Uri :=
  let (text, fragment) := cut '#' text.toList
  let (text, query) := cut '?' text
  let (scheme, text) := cutScheme text
  let (authority, path) := cutAuthority text
  let u : Uri := { scheme, authority, path, query, fragment }
  if u.isValid then some u else none

def isReference (text : String) : Bool := (reference? text).isSome

def isUri (text : String) : Bool := (reference? text).any fun u => u.scheme.isSome

/-- Steps along the pieces of a path, the last of them first. -/
def climb : List (List Char) → List (List Char) → List (List Char)
  | done, [] => done
  | done, [['.']] => [] :: done
  | done, [['.', '.']] => [] :: done.drop 1
  | done, ['.'] :: rest => climb done rest
  | done, ['.', '.'] :: rest => climb (done.drop 1) rest
  | done, piece :: rest => climb (piece :: done) rest

/-- A path without steps to the same place or up. -/
def straighten (path : List Char) : List Char :=
  match path.splitOn '/' with
  | [] :: pieces => '/' :: ['/'].intercalate (climb [] pieces).reverse
  | _ => path

/-- What comes before the last piece of a path. -/
def folder (path : List Char) : List Char := (path.reverse.dropWhile (· ≠ '/')).reverse

/-- Whether a URI has a path that no reference can change. -/
def isOpaque (u : Uri) : Bool :=
  u.authority.isNone && !u.path.isEmpty && u.path.head? != some '/'

/-- What a reference means at a place, which must not be inside a whole. -/
def resolve? (base r : Uri) : Option Uri :=
  if base.fragment.isSome then none
  else if r.scheme.isSome then some { r with path := straighten r.path }
  else if base.isOpaque && (r.authority.isSome || !r.path.isEmpty || r.query.isSome) then none
  else if r.authority.isSome then
    some { r with scheme := base.scheme, path := straighten r.path }
  else if r.path.isEmpty then
    some { base with query := r.query <|> base.query, fragment := r.fragment }
  else
    let path :=
      if r.path.head? = some '/' then r.path
      else if base.authority.isSome && base.path.isEmpty then '/' :: r.path
      else folder base.path ++ r.path
    some { base with path := straighten path, query := r.query, fragment := r.fragment }

/-- The URI of a schema that has no other. -/
def unnamed : Uri := { scheme := some "json-schema".toList, authority := some [], path := ['/'] }

/-- The bytes of a text in which two hexadecimal digits after `%` are one. -/
def bytes : List Char → List UInt8
  | '%' :: a :: b :: rest =>
    match Json.Reader.hexValue? a, Json.Reader.hexValue? b with
    | some m, some n => .ofNat (16 * m + n) :: bytes rest
    | _, _ => '%'.toUInt8 :: bytes (a :: b :: rest)
  | c :: rest => String.utf8EncodeChar c ++ bytes rest
  | [] => []

end Uri
end FormTree
