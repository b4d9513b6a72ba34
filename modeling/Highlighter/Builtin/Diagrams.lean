import Highlighter.Document.Basic

/-! # Diagram languages

    The grammars of languages for diagrams. -/

namespace Highlighter.Builtin

open Document (source one)

/-- Mermaid diagrams. -/
def mermaid : Document :=
  { name := "mermaid"
    tokens := .ofEntries
      [("string", one { pattern := "\"(?:\\\\.|[^\\\\\"\\r\\n])*\"(?!\\s*:)", greedy := true }),
       ("punctuation", source "[\x7b\x7d[\\])(;,]"),
       ("operator", one
           { pattern :=
               "[:*+]|-?->|<--?|participant|Note|right of|loop|end|sequenceDiagram|" ++
               "gantt|title|dateFormat|section"
             flags := "g" })] }

/-- Nomnoml diagrams. -/
def nomnoml : Document :=
  { name := "nomnoml"
    tokens := .ofEntries
      [("punctuation", source "[\x7b\x7d[\\]|,]"),
       ("operator", one
           { pattern := "<choice>|<end>|<start>|<abstract>|<state>|<actor>|<usecase>|[:+\\-<>]"
             flags := "g" })] }

/-- PlantUML diagrams. -/
def plantuml : Document :=
  { name := "plantuml"
    tokens := .ofEntries
      [("string", one { pattern := "\"(?:\\\\.|[^\\\\\"\\r\\n])*\"(?!\\s*:)", greedy := true }),
       ("symbol", source "@startuml|@enduml|@startwbs|@endwbs|@startmindmap|@endmindmap"),
       ("comment", source "skinparam.*|!include.*"),
       ("variable", source "LAYOUT_WITH_LEGEND|LAYOUT_TOP_DOWN"),
       ("punctuation", source "[\x7b\x7d[\\])(;,]"),
       ("operator", one
           { pattern := "[:*+\\-]|(\\.>)|left to right direction|actor|rectangle"
             flags := "g" }),
       ("boolean", one { pattern := "\\b(?:true|false)\\b", flags := "i" }),
       ("null", one { pattern := "\\bnull\\b", flags := "i" }),
       ("text", one
           { pattern := "(?:title)(.*)"
             inside := some (.inline
               [("operator", one { pattern := "^title" })]
               none) }),
       ("keyword", source
           ("System_Boundary|Container_Boundary|ContainerDb|Container|Rel_Back|" ++
            "Rel_Neighbor|Rel|System_Ext|System|Person|Component"))] }

/-- Entity relationship diagrams. -/
def erd : Document :=
  { name := "erd"
    tokens := .ofEntries
      [("string", one { pattern := "\\[[a-zA-Z]+]", flags := "i" }),
       ("number", source
           ("\\b0x[\\dA-Fa-f]+\\b|\\*|\\+|(?:\\b\\d+\\.?\\d*|" ++
            "\\B\\.\\d+)(?:[Ee][+-]?\\d+)?"))] }

/-- Block, sequence and network diagrams. -/
def diag : Document :=
  { name := "diag"
    tokens := .ofEntries
      [("property", one { pattern := "\"(?:\\\\.|[^\\\\\"\\r\\n])*\"(?=\\s*:)", flags := "i" }),
       ("string", one
           { pattern :=
               "\"(?:\\\\.|[^\\\\\"\\r\\n])*\"(?!\\s*:)|LSX|Interdata|Wollongong|V7M|" ++
               "Xenix"
             greedy := true }),
       ("operator", one
           { pattern :=
               ":|--?>|=|<-?-|node |digraph|graph |^nwdiag|network|lane|^actdiag|" ++
               "^seqdiag|^blockdiag|^packetdiag|^rackdiag|[0-9]+-[0-9]+:|[0-9]+:"
             flags := "g" }),
       ("number", source
           ("\\b0x[\\dA-Fa-f]+\\b|(?:\\b\\d+\\.?\\d*|\\B\\.\\d+)\\b" ++
            "(?:[Ee][+-]?\\d+)?")),
       ("punctuation", source "[\x7b\x7d[\\]);,]"),
       ("attr-value", source
           ("polygon|white|filled|salmon[0-9]?|deep|sky|golden|rod[0-9]?|bisque[0-9]?|" ++
            "orangered|crimson|orange[0-9]?|green[0-9]?|light|blue[0-9]?|" ++
            "burlywood[0-9]?|gold[0-9]?|green|yellow[0-9]?|dodger|thistle[0-9]?|dark|" ++
            "olive|blue|steel|turquoise[0-9]?|navy|sea|coral[0-9]?|chocolate|aqua|" ++
            "marine[0-9]?|lemon[0-9]?|chiffon[0-9]?|blanchedalmond|orchid[0-9]?|cyan|" ++
            "cadet|firebrick|mistyrose2|chartreuse4")),
       ("boolean", one { pattern := "\\b(?:true|false)\\b", flags := "i" }),
       ("null", one { pattern := "\\bnull\\b", flags := "i" })] }

/-- Diagrams drawn with characters. -/
def ascii : Document :=
  { name := "ascii"
    tokens := .ofEntries
      [("number", source "\\b0x[\\dA-Fa-f]+\\b|(?:\\b\\d+\\.?\\d*|\\B\\.\\d+)(?:[Ee][+-]?\\d+)?"),
       ("punctuation", source "[-+|v><^]")] }

/-- Pikchr diagrams. -/
def pikchr : Document :=
  { name := "pikchr"
    tokens := .ofEntries
      [("string", one { pattern := "\"(?:\\\\.|[^\\\\\"\\r\\n])*\"(?!\\s*:)", greedy := true }),
       ("assignment", source "([a-z\\$]+) (?=\\*?=)"),
       ("comment", source "#.*"),
       ("punctuation", source
           ("[\x7b\x7d[\\])(;,\\\\/]|\\.start|\\.end|\\.nw|\\.ne|\\.n|\\.sw|\\.se|\\.s|" ++
            "\\.e|\\.w|\\.radius|\\.x|\\.y")),
       ("variable", source "linewid"),
       ("operator", one
           { pattern :=
               "[:*+\\-\\=]|heading|right|left|down|from|then|to|at|rad|height|width|" ++
               "with|wid|ht|behind|fill|move|up|last|color|between|and|way|until|even|" ++
               "previous|same|scale|dist|chop|fit|west|of|below|above|south|2nd"
             flags := "g" }),
       ("keyword", source "circle|arrow|box|ellipse|line|dot|oval"),
       ("symbol", source "black|white|gray|0x[0-9a-z]\x7b6\x7d"),
       ("number", source "\\b[0-9\\.]+(%|cm|in)?"),
       ("font-style-thin", source "thin"),
       ("font-style-bold", source "bold"),
       ("font-style-italic", source "italic")] }

end Highlighter.Builtin
