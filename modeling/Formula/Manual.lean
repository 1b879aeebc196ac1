/-
The manual: an overview and one page for each topic, as lines of text, and the listing of the language's functions.
-/
import Formula.Registry
import Formula.Vocabulary

namespace Formula.Manual

/-- the topics that have a page -/
inductive Topic where
  | syntaxRules
  | operators
  | functions
  | bindings
deriving DecidableEq, Repr

/-- the topic of a name, in any mix of ASCII cases -/
def Topic.ofName? (name : String) : Option Topic :=
  let name := name.map Char.toLower
  if name = "syntax" then some .syntaxRules
  else if ["operators", "ops"].contains name then some .operators
  else if ["functions", "function", "fns"].contains name then some .functions
  else if ["variables", "variable", "vars", "params"].contains name then some .bindings
  else none

/-- what the program does and which topics there are -/
def overview : List String :=
  ["INFA-EXPR DOCUMENTATION",
    "",
    "infa-expr evaluates transformation-language formulas against typed variables",
    "and prints the resulting value as text.",
    "",
    "DOCUMENTATION CATEGORIES",
    "",
    "  syntax            Literals, comments, parentheses and function calls",
    "  operators         Operators and how tightly they bind",
    "  functions         Which functions parse and which evaluate",
    "  variables         Supplying variables and string parameters",
    "",
    "QUICK REFERENCE",
    "",
    "  infa-expr eval \"ABS(-250)\"                        250.000000",
    "  infa-expr eval \"CONCAT(first, 'x')\" --var first:STRING=a",
    "  infa-expr parse \"1 + 2 * 3\" --pretty              print the tree as JSON",
    "  infa-expr tokens \"LTRIM(' a ')\"                   list the tokens",
    "",
    "Run 'infa-expr doc <category>' for detailed documentation."]

/-- literals, comments, grouping and calls -/
def syntaxPage : List String :=
  ["SYNTAX",
    "",
    "LITERALS",
    "  42  -1.1  3.0     Numbers. Stored with exactly six decimals: 2 -> 2.000000",
    "  'text'            Strings, single quoted, no escapes. Use CHR(39) for a quote.",
    "  NULL              The null value",
    "",
    "COMMENTS",
    "  -- to end of line",
    "  // to end of line",
    "",
    "GROUPING AND CALLS",
    "  (1 + 2) * 3       Parentheses override precedence",
    "  ABS(x)            Function names are upper case and must be followed by '('",
    "  LTRIM(s, 'xy')    Arguments are separated by commas",
    "",
    "NOTE",
    "  A '-' directly followed by a digit is part of the number: write 5 - 2,",
    "  not 5-2."]

/-- the operators by precedence -/
def operatorsPage : List String :=
  ["OPERATORS",
    "",
    "From tightest to loosest binding. All are left-associative.",
    "",
    "  *  /  %                 multiply, divide, modulo",
    "  +  -                    add, subtract",
    "  ||                      string concatenation",
    "  <  <=  >  >=            ordering",
    "  =  <>  !=  ^=           equality (the last three all mean \"not equal\")",
    "  AND",
    "  OR",
    "",
    "  1 + 2 * 3               parses as 1 + (2 * 3)",
    "  1 - 2 - 3               parses as (1 - 2) - 3",
    "",
    "Operators are parsed but not evaluated by the built-in function set:",
    "'infa-expr parse' shows their tree, 'infa-expr eval' reports them as",
    "unimplemented."]

/-- the functions that have a value -/
def functionsPage : List String :=
  ["FUNCTIONS",
    "",
    "Every function of the language is recognised by the parser. Only these are",
    "evaluated:",
    "",
    "  ABS(n)                  absolute value; ABS(NULL) is NULL",
    "  CHR(n)                  character with code n (truncated); CHR(NULL) is NULL",
    "  CONCAT(a, b)            a followed by b; a NULL side yields the other side",
    "  LTRIM(s [, set])        strip leading spaces, or leading chars found in set",
    "  RTRIM(s [, set])        strip trailing spaces, or trailing chars found in set",
    "",
    "Run 'infa-expr functions' for the full list."]

/-- how variables are given and used -/
def variablesPage : List String :=
  ["VARIABLES",
    "",
    "Identifiers that are not function names must match a supplied variable.",
    "Each variable has a name, a type (NUMBER, STRING or NULL) and a value.",
    "",
    "  --var in_AMT:NUMBER=2",
    "  --var name:STRING=Bender",
    "  --vars '[\x7b\"name\": \"in_AMT\", \"type\": \"NUMBER\", \"value\": 2\x7d]'",
    "",
    "NUMBER values are normalised to six decimals when substituted.",
    "",
    "PARAMETERS",
    "  Variables whose name starts with '$' are parameters. Besides being usable",
    "  as identifiers, every occurrence of a parameter name inside a string literal",
    "  is replaced by its value, parameters applied in the order given:",
    "",
    "  --var '$$Region:STRING=EU'  \"CONCAT('region=$$Region', '')\"  ->  region=EU"]

/-- the page of a topic -/
def Topic.page : Topic → List String
  | .syntaxRules => syntaxPage
  | .operators => operatorsPage
  | .functions => functionsPage
  | .bindings => variablesPage

/-- every function of the language, a star before those that are registered -/
def functionList (r : Registry) : List String :=
  functionNames.map fun name => (if r.contains name then "* " else "  ") ++ name

/-- lines as one text, each with its line end -/
def text (lines : List String) : String := String.join (lines.map (· ++ "\n"))

end Formula.Manual
