import Workbench.Form.Reading
import Workbench.Node
import Workbench.Tabs
import Workbench.Terminal.History

/-!
# Forms of records

How changes of nodes, tab bars and command histories are read from fields. Other fields are
ignored.
-/

namespace Workbench

open Form (Checked optional nullable listOf)

def NodeUpdate.ofFields (fields : List (String × Json)) : Checked NodeUpdate :=
  NodeUpdate.mk
    <$> optional fields "name" none (nullable Form.text)
    <*> optional fields "tags" none (nullable (listOf Form.text))
    <*> optional fields "favorite" none (nullable Form.truth)
    <*> optional fields "pinned" none (nullable Form.truth)
    <*> optional fields "locked" none (nullable Form.truth)
    <*> optional fields "description" none (nullable Form.text)

def Tabs.ofFields (fields : List (String × Json)) : Checked Tabs :=
  Tabs.mk
    <$> optional fields "open_ids" [] (listOf Form.text)
    <*> optional fields "active_id" none (nullable Form.text)

def History.ofFields (fields : List (String × Json)) : Checked History :=
  (fun limit entries => { limit := limit, entries := entries })
    <$> optional fields "limit" 100 (Form.wholeFrom 1)
    <*> optional fields "entries" [] (listOf Form.text)

end Workbench
