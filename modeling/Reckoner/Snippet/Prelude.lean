import Reckoner.Snippet.Payload

namespace Reckoner.Snippet.Prelude

/-- The helpers are the results of a function, so that its own names stay hidden. -/
def opening : String :=
  "const [avg, sum, max, min, groupBy] = (function (isArray, toStr, createObject) \x7b"

def avgLines : List String :=
  ["  function avg(arr) \x7b",
   "    if (!isArray(arr) || arr.length === 0) return NaN;",
   "    let total = 0;",
   "    for (let i = 0; i < arr.length; i++) total += arr[i];",
   "    return total / arr.length;",
   "  \x7d"]

def sumLines : List String :=
  ["  function sum(arr) \x7b",
   "    if (!isArray(arr)) return 0;",
   "    let total = 0;",
   "    for (let i = 0; i < arr.length; i++) total += arr[i];",
   "    return total;",
   "  \x7d"]

def extremeLines : List String :=
  ["  function extreme(arr, better) \x7b",
   "    if (!isArray(arr) || arr.length === 0) return NaN;",
   "    let best = +arr[0];",
   "    for (let i = 0; i < arr.length; i++) \x7b",
   "      const v = +arr[i];",
   "      if (v !== v) return NaN;",
   "      if (better(v, best)) best = v;",
   "    \x7d",
   "    return best;",
   "  \x7d"]

def maxLines : List String :=
  ["  function max(arr) \x7b",
   "    return extreme(arr, (a, b) => a > b);",
   "  \x7d"]

def minLines : List String :=
  ["  function min(arr) \x7b",
   "    return extreme(arr, (a, b) => a < b);",
   "  \x7d"]

def groupByLines : List String :=
  ["  function groupBy(arr, key) \x7b",
   "    const result = createObject(null);",
   "    if (!isArray(arr)) return result;",
   "    const path = toStr(key).split('.');",
   "    for (let i = 0; i < arr.length; i++) \x7b",
   "      const item = arr[i];",
   "      let value = item;",
   "      for (let j = 0; j < path.length; j++) \x7b",
   "        if (value === null || value === undefined) \x7b value = undefined; break; \x7d",
   "        value = value[path[j]];",
   "      \x7d",
   "      const group = toStr(value);",
   "      if (!(group in result)) result[group] = [];",
   "      result[group].push(item);",
   "    \x7d",
   "    return result;",
   "  \x7d"]

/-- The helpers are given the globals they need before any field can hide these. -/
def closing : List String :=
  ["  return [avg, sum, max, min, groupBy];",
   "\x7d)(Array.isArray, String, Object.create);"]

def allLines : List String :=
  opening :: (avgLines ++ sumLines ++ extremeLines ++ maxLines ++ minLines ++ groupByLines ++
    closing)

/-- The text of the prelude; every line ends in a line feed. -/
def text : List Char := allLines.flatMap fun l => l.toList ++ ['\n']

def linesOf : Helper → List String
  | .avg => avgLines
  | .sum => sumLines
  | .max => maxLines
  | .min => minLines
  | .groupBy => groupByLines

/-- The text of a helper as a function, from its first word to its closing brace. -/
def source (h : Helper) : List Char := (lines ((linesOf h).map String.toList)).drop 2

end Reckoner.Snippet.Prelude
