/-!
# English Stop Words

The words that carry so little meaning in English text that no one looks for
them: articles, pronouns, prepositions and the like. They are in folded form.

## Main definitions

* `StopWords.english`: The list.
-/

namespace Concordance

namespace StopWords

/-- Common English words. -/
def english : List String :=
  ["a", "about", "above", "after", "again", "against", "all", "also", "am", "an", "and",
   "any", "are", "as", "at", "be", "because", "been", "before", "being", "below", "between",
   "both", "but", "by", "can", "could", "did", "do", "does", "doing", "down", "during",
   "each", "few", "for", "from", "further", "had", "has", "have", "having", "he", "her",
   "here", "hers", "herself", "him", "himself", "his", "how", "i", "if", "in", "into", "is",
   "it", "its", "itself", "just", "me", "more", "most", "my", "myself", "no", "nor", "not",
   "now", "of", "off", "on", "once", "only", "or", "other", "our", "ours", "ourselves", "out",
   "over", "own", "same", "she", "should", "so", "some", "such", "than", "that", "the",
   "their", "theirs", "them", "themselves", "then", "there", "these", "they", "this", "those",
   "through", "to", "too", "under", "until", "up", "very", "was", "we", "were", "what",
   "when", "where", "which", "while", "who", "whom", "why", "will", "with", "would", "you",
   "your", "yours", "yourself", "yourselves"]

end StopWords

end Concordance
