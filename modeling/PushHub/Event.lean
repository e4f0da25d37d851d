import PushHub.Channel
/-!
The notifications with agreed field names: task progress, account changes and system notices.
Optional fields that are absent are left out of the text.
-/
namespace PushHub

open Json (Outline Decoded Field)

def optionalMember (name : String) : Option Json → List (String × Json)
  | none => []
  | some v => [(name, v)]

structure TaskUpdate where
  taskId : UInt64
  status : String
  progress : Option UInt8 := none
  message : Option String := none
deriving DecidableEq, Repr

namespace TaskUpdate

def eventType : String := "task_update"

def members (t : TaskUpdate) : List (String × Json) :=
  [("task_id", .nat t.taskId), ("status", .text t.status)] ++
    optionalMember "progress" (t.progress.map fun p => .number (.integer (.ofUInt8 p))) ++
    optionalMember "message" (t.message.map .text)

def fields : List Field :=
  [.of "task_id" Outline.asUInt64, .of "status" Outline.asText,
    .defaulted "progress" (Outline.asOption Outline.asUInt8),
    .defaulted "message" (Outline.asOption Outline.asText)]

def decode (v : Outline) : Decoded TaskUpdate := do
  let row ← v.record "struct TaskUpdate" fields
  .ok ⟨← row.get "task_id" Outline.asUInt64, ← row.get "status" Outline.asText,
    ← row.getD "progress" (Outline.asOption Outline.asUInt8) none,
    ← row.getD "message" (Outline.asOption Outline.asText) none⟩

end TaskUpdate

structure AccountStatusChange where
  accountId : UInt64
  status : String
  reason : Option String := none
deriving DecidableEq, Repr

namespace AccountStatusChange

def eventType : String := "account_status"

def members (a : AccountStatusChange) : List (String × Json) :=
  [("account_id", .nat a.accountId), ("status", .text a.status)] ++
    optionalMember "reason" (a.reason.map .text)

def fields : List Field :=
  [.of "account_id" Outline.asUInt64, .of "status" Outline.asText,
    .defaulted "reason" (Outline.asOption Outline.asText)]

def decode (v : Outline) : Decoded AccountStatusChange := do
  let row ← v.record "struct AccountStatusChange" fields
  .ok ⟨← row.get "account_id" Outline.asUInt64, ← row.get "status" Outline.asText,
    ← row.getD "reason" (Outline.asOption Outline.asText) none⟩

end AccountStatusChange

inductive NoticeLevel
  | info
  | warning
  | critical
deriving DecidableEq, Repr

namespace NoticeLevel

def name : NoticeLevel → String
  | .info => "info"
  | .warning => "warning"
  | .critical => "critical"

def all : List NoticeLevel := [.info, .warning, .critical]

def decode (v : Outline) : Decoded NoticeLevel := do
  match ← v.asName (all.map name) with
  | "info" => .ok .info
  | "warning" => .ok .warning
  | _ => .ok .critical

end NoticeLevel

structure SystemNotice where
  level : NoticeLevel
  title : String
  message : String
deriving DecidableEq, Repr

namespace SystemNotice

def eventType : String := "system_notice"

def members (n : SystemNotice) : List (String × Json) :=
  [("level", .text n.level.name), ("title", .text n.title), ("message", .text n.message)]

def fields : List Field :=
  [.of "level" NoticeLevel.decode, .of "title" Outline.asText, .of "message" Outline.asText]

def decode (v : Outline) : Decoded SystemNotice := do
  let row ← v.record "struct SystemNotice" fields
  .ok ⟨← row.get "level" NoticeLevel.decode, ← row.get "title" Outline.asText,
    ← row.get "message" Outline.asText⟩

end SystemNotice

end PushHub
