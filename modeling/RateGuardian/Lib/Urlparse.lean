import Mathlib.Data.List.TakeDrop

/-!
# RateGuardian.Lib.Urlparse

**Which URLs `urllib.parse.urlparse` accepts, and the network location it finds in them.** The
parser itself never fails: it cuts the URL at the scheme's colon and at the next delimiter
(`netloc`). What can fail are the checks on the text between, and `urlparse` runs them in the order
of the standard library:

* square brackets come in both kinds or not at all, and enclose an IP literal
  (`checkBracketedHost`, with the address grammar of the `ipaddress` module);
* no character turns into a delimiter of URLs when the host is normalized for IDNA (`checkNetloc`).

A URL that fails one of them raises `ValueError`, whose text is the error here. The checks are those
of Python 3.11. Other releases check a little more or less, so results that depend on a URL being
accepted should take the parser as a parameter, and this one where they are evaluated.
-/

namespace RateGuardian.Lib

/-! ### IP literals -/

namespace IpAddress

/-- A decimal octet: at most three digits and at most 255, without leading zeros. -/
def isOctet (s : List Char) : Bool :=
  s ≠ [] && s.all Char.isDigit && s.length ≤ 3 && (s = ['0'] || s.head? ≠ some '0') &&
    Nat.ofDigitChars 10 s 0 ≤ 255

/-- `ipaddress.IPv4Address(s)` returns: four octets between dots. -/
def isIPv4 (s : List Char) : Bool :=
  (s.splitOn '.').length = 4 && (s.splitOn '.').all isOctet

def isHexDigit (c : Char) : Bool := c.isDigit || c ∈ "abcdefABCDEF".toList

/-- A group of an IPv6 address: one to four hexadecimal digits. -/
def isHextet (s : List Char) : Bool := s ≠ [] && s.all isHexDigit && s.length ≤ 4

/-- The groups of an address with one `::`, which stands for at least one group of zeros. An empty
group at either end is that of a `::` there. -/
def areCompressed (parts : List (List Char)) : Bool :=
  let skip := parts.tail.idxOf [] + 1
  let high := if parts.take skip = [[]] then [] else parts.take skip
  let low := if parts.drop (skip + 1) = [[]] then [] else parts.drop (skip + 1)
  high.length + low.length < 8 && (high ++ low).all isHextet

/-- The texts between the colons of an IPv6 address. -/
def areGroups (parts : List (List Char)) : Bool :=
  match parts.tail.dropLast.count [] with
  | 0 => parts.length = 8 && parts.all isHextet
  | 1 => parts.length ≤ 9 && areCompressed parts
  | _ => false

/-- `ipaddress.IPv6Address(s)` returns, on an address without its scope. An IPv4 address in the last
place counts as two groups. -/
def isUnscopedIPv6 (s : List Char) : Bool :=
  let parts := s.splitOn ':'
  3 ≤ parts.length &&
    if '.' ∈ parts.getLastD [] then
      isIPv4 (parts.getLastD []) && areGroups (parts.dropLast ++ [['0'], ['0']])
    else areGroups parts

/-- `ipaddress.IPv6Address(s)` returns. The scope after a `%` is not empty and has no other `%`. -/
def isIPv6 (s : List Char) : Bool :=
  '/' ∉ s &&
    match s.span (· ≠ '%') with
    | (address, _ :: scope) => scope ≠ [] && '%' ∉ scope && isUnscopedIPv6 address
    | (address, []) => isUnscopedIPv6 address

/-- An address of a later version of the protocol, `v<version>.<address>`, less its `v`. -/
def isFuture (s : List Char) : Bool :=
  match s.span isHexDigit with
  | (version, '.' :: address) => version ≠ [] && address ≠ [] && '\n' ∉ address
  | _ => false

end IpAddress

/-! ### The network location -/

/-- What follows the scheme of a URL, if it has one, less what `urlsplit` ignores. -/
def afterScheme (url : String) : List Char :=
  let chars := (url.toList.dropWhile fun c => c.toNat ≤ 32).filter (· ∉ ['\t', '\r', '\n'])
  let scheme := chars.takeWhile (· ≠ ':')
  let isScheme := (scheme.head?.any Char.isAlpha) &&
    scheme.all fun c => c.isAlphanum || c ∈ ['+', '-', '.']
  if scheme.length < chars.length && isScheme then chars.drop (scheme.length + 1) else chars

/-- The text between `//` and the next `/`, `?` or `#`, if the URL has a `//` there. -/
def netloc (url : String) : String :=
  match afterScheme url with
  | '/' :: '/' :: rest => String.ofList (rest.takeWhile (· ∉ ['/', '?', '#']))
  | _ => ""

/-! ### The checks -/

/-- `_check_bracketed_host`: between brackets stands an IPv6 address or one of a later version. -/
def checkBracketedHost (host : List Char) : Except String Unit :=
  if host.head? = some 'v' then
    if IpAddress.isFuture host.tail then .ok () else .error "IPvFuture address is invalid"
  else if IpAddress.isIPv4 host then .error "An IPv4 address cannot be in brackets"
  else if IpAddress.isIPv6 host then .ok ()
  else .error ("'" ++ String.ofList host ++ "' does not appear to be an IPv4 or IPv6 address")

/-- The check of the brackets in a network location; of several pairs the first is looked at. -/
def checkBrackets (netloc : List Char) : Except String Unit :=
  if '[' ∈ netloc ∧ ']' ∈ netloc then
    checkBracketedHost (((netloc.dropWhile (· ≠ '[')).drop 1).takeWhile (· ≠ ']'))
  else if '[' ∈ netloc ∨ ']' ∈ netloc then .error "Invalid IPv6 URL"
  else .ok ()

/-- The characters whose compatibility decomposition (NFKC) has a `/`, `?`, `#`, `@` or `:`. -/
def unsafeHostChars : List Char :=
  ['\u2047', '\u2048', '\u2049', '\u2100', '\u2101', '\u2105', '\u2106', '\u2A74', '\uFE13',
    '\uFE16', '\uFE55', '\uFE56', '\uFE5F', '\uFE6B', '\uFF03', '\uFF0F', '\uFF1A', '\uFF1F',
    '\uFF20']

/-- `_checknetloc`. The delimiters themselves are taken out before the text is normalized, so a
delimiter found after it comes from one of the characters above. -/
def checkNetloc (netloc : List Char) : Except String Unit :=
  if netloc.any (· ∈ unsafeHostChars) then
    .error ("netloc '" ++ String.ofList netloc ++
      "' contains invalid characters under NFKC normalization")
  else .ok ()

/-- `urlparse(url).netloc`, or the text of the `ValueError` that parsing raises. -/
def urlparse (url : String) : Except String String := do
  checkBrackets (netloc url).toList
  checkNetloc (netloc url).toList
  return netloc url

end RateGuardian.Lib
