import ListLang.Builtin

/-! The journal: what a run logs about its definitions and calls. -/

namespace ListLang

inductive JournalEvent where
  | define
  | call
  deriving DecidableEq

def JournalEvent.name : JournalEvent → String
  | .define => "def"
  | .call => "call"

structure JournalEntry where
  depth : Nat
  event : JournalEvent
  shown : String
  deriving DecidableEq

/-- The line of an entry, after what the log puts before every line. -/
def JournalEntry.line (lead id handle : String) (e : JournalEntry) : String :=
  lead ++ (Site.mk id handle e.depth).display ++ ": " ++ e.event.name ++ " " ++ e.shown ++ "\n"

end ListLang
