import SafeNudge.Lib.Split

/-!
# Redaction

`ops/watchdog/watchdog.ts`: `redact`, through which every error text goes before it is logged,
stored or sent. A JavaScript string is a list of UTF-16 code units, so that the texts here are all
of them, also those that are no sequence of characters.
-/

namespace SafeNudge.Watchdog

open Lib

abbrev Text := List UInt16

/-- An ASCII literal. -/
def ascii (s : String) : Text := s.toList.map fun c => .ofNat c.toNat

/-- `\s` of a regular expression. -/
def isSpace (c : UInt16) : Bool :=
  (9 ≤ c && c ≤ 13) || c == 0x20 || c == 0xA0 || c == 0x1680 || (0x2000 ≤ c && c ≤ 0x200A) ||
    c == 0x2028 || c == 0x2029 || c == 0x202F || c == 0x205F || c == 0x3000 || c == 0xFEFF

/-- `https?:\/\/\S` matches here. -/
def startsUrl (text : Text) : Bool :=
  ["http://", "https://"].any fun scheme =>
    (ascii scheme).isPrefixOf text &&
      ((text.drop (ascii scheme).length).head?.any fun c => !isSpace c)

/-- `replace(/https?:\/\/\S+/g, "<url>")`; the flag says whether a match goes on. -/
def replaceUrls : Bool → Text → Text
  | _, [] => []
  | true, c :: text => if isSpace c then c :: replaceUrls false text else replaceUrls true text
  | false, c :: text =>
    if startsUrl (c :: text) then ascii "<url>" ++ replaceUrls true text
    else c :: replaceUrls false text

/-- One round of the loop over the secrets. -/
def redactSecret (out s : Text) : Text :=
  if s ≠ [] then (ascii "<secret>").intercalate (split s out) else out

/-- Removes URLs and the configured secrets from text that leaves the process. -/
def redact (text : Text) (secrets : List Text) : Text :=
  secrets.foldl redactSecret (replaceUrls false text)

end SafeNudge.Watchdog
