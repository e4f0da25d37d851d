import PushHub.Failure
/-!
How a command reports what stopped it: the failure, then what caused it, the nearest cause first.
Several causes are numbered; further lines of a cause are set in under its first one.
-/
namespace PushHub

structure Report where
  message : String
  causes : List String := []
deriving DecidableEq, Repr

namespace Report

def wrap (r : Report) (context : String) : Report := ⟨context, r.message :: r.causes⟩

def hanging (margin text : String) : String := ("\n" ++ margin).intercalate (text.splitOn "\n")

def numbered : Nat → List String → String
  | _, [] => ""
  | n, c :: rest => "    " ++ toString n ++ ": " ++ hanging "       " c ++ "\n" ++ numbered (n + 1) rest

def causeLines : List String → String
  | [] => ""
  | [c] => "\n\nCaused by:\n    " ++ hanging "    " c ++ "\n"
  | causes => "\n\nCaused by:\n" ++ numbered 0 causes

def render (r : Report) : String :=
  "Error: " ++ r.message ++ if r.causes.isEmpty then "\n" else causeLines r.causes

end Report

end PushHub
