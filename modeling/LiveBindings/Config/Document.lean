import LiveBindings.Config.Basic
import LiveBindings.Json.Reader

namespace LiveBindings

namespace Config

def labelKey : String := "label"

def policyKey : String := "unresolved"

/-- The label that a document gives: a text, or null for none. -/
def label? : Json Quoted → Option (Option String)
  | .null => some none
  | .string (some label) => some (some label)
  | _ => none

def policyOfKeyword? (word : String) : Option Policy :=
  if word = Policy.keyword .lenient then some .lenient
  else if word = Policy.keyword .strict then some .strict
  else none

/-- The policy that a document gives: a keyword, or an object with that keyword as the name of its
one member and null as its value. -/
def policy? : Json Quoted → Option Policy
  | .string (some word) => policyOfKeyword? word
  | .object [(some word, .null)] => policyOfKeyword? word
  | _ => none

/-- The members of a configuration that were read so far. -/
structure Draft where
  label : Option (Option String)
  policy : Option Policy

namespace Draft

def blank : Draft := ⟨none, none⟩

/-- Reads one member. A name that is no text and a second member of a known name are refused; a
member of any other name is passed over. -/
def member? (draft : Draft) : Quoted × Json Quoted → Option Draft
  | (none, _) => none
  | (some name, value) =>
    if name = labelKey then
      if draft.label.isSome then none
      else (label? value).map fun label => ⟨some label, draft.policy⟩
    else if name = policyKey then
      if draft.policy.isSome then none
      else (policy? value).map fun policy => ⟨draft.label, some policy⟩
    else some draft

def members? : Draft → List (Quoted × Json Quoted) → Option Draft
  | draft, [] => some draft
  | draft, member :: rest =>
    match draft.member? member with
    | some next => members? next rest
    | none => none

/-- The configuration of a draft, with standard values for what was not read. -/
def config (draft : Draft) : Config :=
  ⟨draft.label.getD Config.standard.label, draft.policy.getD Config.standard.policy⟩

end Draft

/-- The configuration that a document gives: an object's known members, or at most two items, first
the label and then the policy. -/
def ofDocument? : Json Quoted → Option Config
  | .object members => (Draft.blank.members? members).map Draft.config
  | .array [] => some standard
  | .array [label] => do return ⟨← label? label, standard.policy⟩
  | .array [label, policy] => do return ⟨← label? label, ← policy? policy⟩
  | _ => none

def parse (text : String) : Except Fault Config :=
  match (Json.read? text).bind ofDocument? with
  | some config => .ok config
  | none => .error .jsonSyntax

def document (config : Config) : Json String :=
  .object [(labelKey, config.label.elim .null .string),
    (policyKey, .string config.policy.keyword)]

def write (config : Config) : String := config.document.write

/-- What may stand where a configuration file is looked for. -/
inductive File
  | missing
  | directory
  | bytes (content : ByteArray)

/-- Reads a configuration file. One that is not there or holds no UTF-8 text is a fault of the file
system. -/
def ofFile : File → Except Fault Config
  | .bytes content =>
    match String.fromUTF8? content with
    | some text => parse text
    | none => .error .fileSystem
  | _ => .error .fileSystem

end Config

end LiveBindings
