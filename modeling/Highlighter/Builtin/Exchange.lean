import Highlighter.Document.Basic

/-! # Data and requests

    The grammars of JSON and of what clients send to servers. -/

namespace Highlighter.Builtin

open Document (source one)

/-- The first line of a request. -/
def http : Document :=
  { name := "http"
    tokens := .ofEntries
      [("verb-post", one { pattern := "^POST", flags := "i" }),
       ("verb-get", one { pattern := "^GET", flags := "i" }),
       ("host", source "(http)s?:\\/\\/[^\\/]+")] }

/-- JSON texts. -/
def json : Document :=
  { name := "json"
    tokens := .ofEntries
      [("property", one { pattern := "\"(?:\\\\.|[^\\\\\"\\r\\n])*\"(?=\\s*:)", flags := "i" }),
       ("string", one { pattern := "\"(?:\\\\.|[^\\\\\"\\r\\n])*\"(?!\\s*:)", greedy := true }),
       ("number", source "\\b0x[\\dA-Fa-f]+\\b|(?:\\b\\d+\\.?\\d*|\\B\\.\\d+)(?:[Ee][+-]?\\d+)?"),
       ("punctuation", source "[\x7b\x7d[\\]);,]"),
       ("operator", one { pattern := ":", flags := "g" }),
       ("boolean", one { pattern := "\\b(?:true|false)\\b", flags := "i" }),
       ("null", one { pattern := "\\bnull\\b", flags := "i" })] }

/-- The headers of a request. -/
def request : Document :=
  { name := "request"
    tokens := .ofEntries
      [("null", one { pattern := "\\n.*$", flags := "i" }),
       ("operator", one { pattern := "[a-zA-Z\\-]+:", flags := "i" }),
       ("keyword", one { pattern := "image\\/svg\\+xml|text\\/plain", flags := "i" })] }

end Highlighter.Builtin
