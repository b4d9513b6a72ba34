import Highlighter.Document.Basic

/-! # Markup

    The grammar of markup languages.  An opening tag is tokenized in turn,
    and so are its name and the values of its attributes. -/

namespace Highlighter.Builtin

open Document (source one)

/-- Markup: elements with attributes, comments and entities. -/
def markup : Document :=
  { name := "markup"
    aliases := ["xml", "html", "mathml", "svg"]
    tokens := .ofEntries
      [("comment", source "<!--[\\s\\S]*?-->"),
       ("prolog", source "<\\?[\\s\\S]+?\\?>"),
       ("doctype", one { pattern := "<!DOCTYPE[\\s\\S]+?>", flags := "i" }),
       ("cdata", one { pattern := "<!\\[CDATA\\[[\\s\\S]*?]]>", flags := "i" }),
       ("property", one
           { pattern :=
               "<\\/?(?!\\d)[^\\s>\\/=$<%]+(?:\\s+[^\\s>\\/=]+(?:=(?:(\"|" ++
               "')(?:\\\\[\\s\\S]|(?!\\1)[^\\\\])*\\1|[^\\s'\">=]+))?)*\\s*\\/?>"
             flags := "i"
             greedy := true
             inside := some (.inline
               [("property", one
                    { pattern := "^<\\/?[^\\s>\\/]+"
                      flags := "i"
                      inside := some (.inline
                        [("punctuation", source "^<\\/?"),
                         ("namespace", source "^[^\\s>\\/:]+:")]
                        none) }),
                ("attr-value", one
                    { pattern := "=(?:(\"|')(?:\\\\[\\s\\S]|(?!\\1)[^\\\\])*\\1|[^\\s'\">=]+)"
                      flags := "i"
                      inside := some (.inline
                        [("punctuation", .alternatives
                             [.source "^=",
                              .descriptor { pattern := "(^|[^\\\\])[\"']", lookbehind := true }]),
                         ("entity", one { pattern := "&#?[\\da-z]\x7b1,8\x7d;", flags := "i" })]
                        none) }),
                ("punctuation", source "\\/?>"),
                ("attr-name", one
                    { pattern := "[^\\s>\\/]+"
                      inside := some (.inline
                        [("namespace", source "^[^\\s>\\/:]+:")]
                        none) })]
               none) }),
       ("entity", one { pattern := "&#?[\\da-z]\x7b1,8\x7d;", flags := "i" })] }

end Highlighter.Builtin
