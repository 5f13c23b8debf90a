import Kinetick.Js

/-!
# Messages of the agent

A message is an object, read field by field.
-/

namespace Kinetick

/-- A message of the agent, as an object. -/
structure AgentMessage where
  fields : List (String × JsValue)

namespace AgentMessage

variable (message : AgentMessage)

def get (key : String) : JsValue := JsValue.lookup key message.fields

def hasRole (role : String) : Bool := (message.get "role").isText role

/-- `Object.hasOwn(message, key)` -/
def hasOwn (key : String) : Bool := message.fields.any (·.1 = key)

/-- `{ ...message, content }` -/
def withContent (content : JsValue) : AgentMessage :=
  { fields := message.fields.filter (fun field => field.1 ≠ "content") ++ [("content", content)] }

end AgentMessage

end Kinetick
