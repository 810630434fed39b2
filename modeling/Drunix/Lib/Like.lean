import Mathlib.Data.List.Basic

namespace Drunix.Lib

inductive LikeItem where
  | literal (c : UInt8)
  | anyOne
  | anyRun
  deriving DecidableEq

/-- A pattern with its wildcards `%` and `_`; a backslash takes the next character literally. -/
def likeItems : List UInt8 → List LikeItem
  | [] => []
  | [c] => [if c = 0x25 then .anyRun else if c = 0x5f then .anyOne else .literal c]
  | c :: d :: rest =>
    if c = 0x5c then .literal d :: likeItems rest
    else (if c = 0x25 then .anyRun else if c = 0x5f then .anyOne else .literal c) :: likeItems (d :: rest)

def likeMatch : List LikeItem → List UInt8 → Bool
  | [], text => text.isEmpty
  | .literal c :: items, text =>
    match text with
    | [] => false
    | d :: text => c = d && likeMatch items text
  | .anyOne :: items, text =>
    match text with
    | [] => false
    | _ :: text => likeMatch items text
  | .anyRun :: items, text => text.tails.any (likeMatch items)

def like (pattern text : List UInt8) : Bool :=
  likeMatch (likeItems pattern) text

end Drunix.Lib
