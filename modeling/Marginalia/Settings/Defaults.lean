import Marginalia.Value.Merge

/-!
# Default settings
-/

namespace Marginalia.Settings

/-- An object of texts. -/
def textMembers (members : List (Text × Text)) : Value :=
  .object (members.map fun (key, t) => (key, .text t))

/-- The markers of PHP. -/
def php : Value :=
  .object
    [("code_start", .text "<?"),
     ("code_start_full", .text "<?php"),
     ("code_end", .text "?>"),
     ("line_comment", .text "//"),
     ("block_comment_start", .text "/*"),
     ("block_comment_end", .text "*/"),
     ("doc_comment_start", .text "/**"),
     ("quotes", .list [.text "\"", .text "'"]),
     ("escape", .text "\\"),
     ("declarations", textMembers
       [("public function", "public_method"),
        ("private function", "private_method"),
        ("protected function", "protected_method"),
        ("function", "function"),
        ("class", "class"),
        ("namespace", "namespace")]),
     ("statement_separators", .list [.text "\x7b", .text "\x7d", .text ";"]),
     ("no_space_before", .list [.text "(", .text ")", .text ","]),
     ("args_start", .text "("),
     ("args_end", .text ")"),
     ("doc_line_marker", .text "*"),
     ("tag_prefix", .text "@"),
     ("param_pattern", .text "\\$[A-Za-z_\\x7f-\\xff][A-Za-z0-9_\\x7f-\\xff]*")]

/-- The words on a page. -/
def labels : Value :=
  textMembers
    [("functions", "Functions"),
     ("class", "Class"),
     ("view_details", "View details"),
     ("uses", "Uses"),
     ("parameters", "Parameters"),
     ("returns", "Returns"),
     ("version", "Version"),
     ("author", "Author"),
     ("since", "Since"),
     ("back", "Back to overview"),
     ("contents", "Contents"),
     ("errors", "Problems found")]

/-- The settings in force where a settings file says nothing. -/
def defaults : Value :=
  .object
    [("debug", .bool false),
     ("languages", textMembers [(".php", "php")]),
     ("syntax", .object [("php", php)]),
     ("lint", .object
       [("enabled", .bool true),
        ("summary_exempt_names", .list [.text "__construct"]),
        ("summary_exempt_kinds", .list [.text "namespace", .text "class"])]),
     ("render", .object
       [("link_param", .text "decl"),
        ("link_target", .text "doclink"),
        ("namespace_separator", .text "\\"),
        ("labels", labels)])]

/-- The defaults with changes merged in. -/
def withDefaults (changes : Value) : Except Fault Value := Value.merge defaults changes

end Marginalia.Settings
